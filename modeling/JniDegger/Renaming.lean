import JniDegger.TableReads
import JniDegger.Relocation
import Mathlib.Logic.Function.Basic

/-!
# One script in two processes

Two processes serve the same calls, at handles that correspond by a renaming.  Proved
here, for one that began with empty tables and one that began with any:

* `serve_reads`: a call changes the reading of no handle but the one it allocates;
* `enclosed_step`: a process that began with empty tables only comes by `0`, `1` and
  the addresses it allocates;
* `Renames.serve`: replies correspond and the renaming extends, as long as the names
  known to one of them only are not asked for and each search for an empty name ends
  at corresponding handles.
-/

namespace JniDegger.FakeEnv

open Runs InternTable

/-! ## What a call leaves alone -/

section Call

variable {A : Allocator} {s : Env} {c : Call Handle} {h : Handle}

theorem serve_reads (hs : WF A s) (c : Call Handle) (hh : h ≠ A.addr s.news) :
    (serve A s c).env.clsName h = s.clsName h ∧ (serve A s c).env.nameSig h = s.nameSig h := by
  rcases serve_cases A s c with hn | ⟨n, -, -, he⟩ | ⟨cls, fn, t, -, -, he⟩
  · exact ⟨peek_congr fun v => hn.classes h v, peek_congr fun v => hn.methods h v⟩
  · rw [he]
    refine ⟨peek_congr fun v => ?_, rfl⟩
    simp [binds_newClass hs, hh]
  · have hn := sameNames_touchClass s cls
    rw [he]
    refine ⟨peek_congr fun v => hn.classes h v, peek_congr fun v => ?_⟩
    rw [binds_newMethod (hn.wf hs), hn.methods, hn.news]
    simp [hh]

theorem serve_meaning (hs : WF A s) (c : Call Handle) (hh : h ≠ A.addr s.news) :
    (serve A s c).env.meaning h = s.meaning h := by
  obtain ⟨hcls, hsig⟩ := serve_reads hs c hh
  rw [Env.meaning, Env.meaning, hcls, hsig]

theorem ne_addr_of_used (hh : h ∈ A.used s.news) : h ≠ A.addr s.news := by
  rintro rfl
  exact A.next_not_used _ hh

theorem serve_news (A : Allocator) (s : Env) (c : Call Handle) :
    (serve A s c).env.news = if (s.interned A c).2 then s.news + 1 else s.news := by
  have lookup : ∀ cls fn t, (methodLookup A (s.touchClass cls) fn (s.clsName cls) t).env.news =
      if (s.locate? (.method t)).isNone then s.news + 1 else s.news := by
    intro cls fn t
    have htable : (s.touchClass cls).gMethodIDMap = s.gMethodIDMap := rfl
    rw [methodLookup, Env.locate?, htable]
    split
    · next hs => simp [hs, Env.touchClass]
    · next hs => simp [hs, Env.newMethod, Env.touchClass]
  cases c with
  | findClass n =>
    simp only [serve, hookFindClass, Effect.answer, Env.interned, Call.interned?, Env.locate?]
    split
    · next hs => simp [hs]
    · next hs => simp [hs, Env.newClass]
  | getMethodID cls n sig => exact lookup _ _ _
  | getStaticMethodID cls n sig => exact lookup _ _ _
  | call slot o m args => cases slot <;> rfl
  | getObjectClass o =>
    simp only [serve, hookGetObjectClass, Effect.answer]
    split <;> rfl
  | getStringUTFChars o =>
    simp only [serve, hookGetStringUTFChars, Effect.answer]
    split <;> rfl
  | _ => rfl

theorem interned_addr (hb : (s.interned A c).2 = true) : (s.interned A c).1 = A.addr s.news := by
  rw [Env.interned] at hb ⊢
  split at hb
  · simp only [Option.isNone_iff_eq_none] at hb
    simp [hb]
  · cases hb

theorem used_serve : h ∈ A.used (serve A s c).env.news ↔
    h ∈ A.used s.news ∨ (s.interned A c).2 = true ∧ h = (s.interned A c).1 := by
  rw [serve_news]
  cases hb : (s.interned A c).2
  · simp
  · rw [if_pos rfl, A.used_succ, interned_addr hb]
    simp [or_comm]

theorem mem_handles_of_readsClass {η : Type} {c : Call η} {h : η} (hh : h ∈ c.readsClass?) :
    h ∈ c.handles := by
  cases c with
  | call slot o m args => cases slot <;> simp_all [Call.readsClass?, Call.handles, CallSlot.printsClass]
  | _ => simp_all [Call.readsClass?, Call.handles, Call.objects]

theorem classKey_after (hh : h ∈ (serve A s c).env.gClassNameMap) :
    h ∈ s.gClassNameMap ∨ h ∈ c.handles ∨ (s.interned A c).2 = true ∧ h = (s.interned A c).1 := by
  by_cases hc : ∃ n, c = .findClass n
  · obtain ⟨n, rfl⟩ := hc
    simp only [serve, hookFindClass, Effect.answer] at hh
    split at hh
    · exact Or.inl hh
    · next hs =>
      rcases mem_insert.mp hh with rfl | hh
      · exact Or.inr (Or.inr (by simp [Env.interned, Call.interned?, Env.locate?, hs]))
      · exact Or.inl hh
  · rw [serve_classTable A s fun n hn => hc ⟨n, hn⟩] at hh
    cases hr : c.readsClass? with
    | none =>
      rw [hr] at hh
      exact Or.inl hh
    | some k =>
      rw [hr] at hh
      rcases mem_touch.mp hh with rfl | hh
      · exact Or.inr (Or.inl (mem_handles_of_readsClass hr))
      · exact Or.inl hh

theorem methodKey_after (hh : h ∈ (serve A s c).env.gMethodIDMap) :
    h ∈ s.gMethodIDMap ∨ h ∈ c.handles ∨ (s.interned A c).2 = true ∧ h = (s.interned A c).1 := by
  have lookup : ∀ cls fn t, h ∈ (methodLookup A (s.touchClass cls) fn (s.clsName cls) t).env.gMethodIDMap →
      h ∈ s.gMethodIDMap ∨ (s.locate? (.method t)).isNone = true ∧ h = A.addr s.news := by
    intro cls fn t hh
    have htable : (s.touchClass cls).gMethodIDMap = s.gMethodIDMap := rfl
    rw [methodLookup, htable] at hh
    split at hh
    · exact Or.inl hh
    · next hs =>
      rcases mem_insert.mp hh with rfl | hh
      · exact Or.inr ⟨by simp [Env.locate?, hs], rfl⟩
      · exact Or.inl hh
  cases c with
  | findClass n =>
    rcases serve_findClass (A := A) (s := s) n with ⟨-, -, -, he⟩ | ⟨-, he⟩ <;>
      rw [he] at hh <;> exact Or.inl hh
  | getMethodID cls n sig =>
    rcases lookup _ _ _ hh with hh | ⟨hb, rfl⟩
    · exact Or.inl hh
    · exact Or.inr (Or.inr ⟨hb, (interned_addr (c := .getMethodID cls n sig) hb).symm⟩)
  | getStaticMethodID cls n sig =>
    rcases lookup _ _ _ hh with hh | ⟨hb, rfl⟩
    · exact Or.inl hh
    · exact Or.inr (Or.inr ⟨hb, (interned_addr (c := .getStaticMethodID cls n sig) hb).symm⟩)
  | call slot o m args =>
    rw [(serve_tables A s (by simp) rfl).2] at hh
    rcases mem_touch.mp hh with rfl | hh
    · exact Or.inr (Or.inl (by simp [Call.handles]))
    · exact Or.inl hh
  | _ =>
    rw [(serve_tables A s (by simp) rfl).2] at hh
    exact Or.inl hh

/-- An entry of the class table stays, unless the call allocates its key. -/
theorem classEntry_serve {n : String} (hn : s.gClassNameMap[h]? = some n)
    (hne : (s.interned A c).2 = true → (s.interned A c).1 ≠ h) :
    (serve A s c).env.gClassNameMap[h]? = some n := by
  by_cases hc : ∃ m, c = .findClass m
  · obtain ⟨m, rfl⟩ := hc
    simp only [serve, hookFindClass, Effect.answer]
    split
    · exact hn
    · next hs =>
      have hother : A.addr s.news ≠ h := by
        simpa [Env.interned, Call.interned?, Env.locate?, hs] using hne
      rw [Env.newClass, Std.ExtTreeMap.getElem?_insert, if_neg ?_, hn]
      exact fun he => hother (Std.LawfulEqCmp.eq_of_compare he)
  · rw [serve_classTable A s fun m hm => hc ⟨m, hm⟩]
    cases c.readsClass? with
    | none => exact hn
    | some k => exact getElem?_touch hn

theorem interned_key {μ : Meaning} (hc : c.interned? = some μ) (hb : (s.interned A c).2 = false) :
    (s.interned A c).1 ∈ s.gClassNameMap ∨ (s.interned A c).1 ∈ s.gMethodIDMap := by
  have key : ∀ (m : NameMap) (n : String) (h : Handle), search m n = some h → h ∈ m := by
    intro m n h hs
    exact Std.ExtTreeMap.mem_iff_isSome_getElem?.mpr (by rw [getElem?_of_search hs]; rfl)
  simp only [Env.interned, hc] at hb ⊢
  cases hl : s.locate? μ with
  | none =>
    rw [hl] at hb
    cases hb
  | some h =>
    cases μ with
    | cls n => exact Or.inl (key _ _ _ hl)
    | method t => exact Or.inr (key _ _ _ hl)
    | value v => cases c <;> cases hc

theorem carried_interned {η : Type} {c : Call η} (hc : c.interned? ≠ none) (R : Reading η)
    (exc : Bool) (found : η) (fresh : Bool) :
    (observe R exc found fresh c).answer.carried? = some found := by
  cases c <;> first | rfl | exact absurd rfl hc

theorem interned?_of_fresh (hb : (s.interned A c).2 = true) : c.interned? ≠ none := by
  intro hc
  rw [Env.interned, hc] at hb
  cases hb

end Call

/-! ## A process that began with empty tables -/

/-- What a process comes by without help from outside: the constants `0` and `1`, and the
first `k` addresses. -/
def Allocator.own (A : Allocator) (k : Nat) : Set Handle := {h | h ≤ 1 ∨ h ∈ A.used k}

theorem Allocator.own_mono (A : Allocator) {k l : Nat} (h : k ≤ l) : A.own k ⊆ A.own l := by
  rintro v (hv | hv)
  · exact Or.inl hv
  · exact Or.inr (A.used_mono h hv)

/-- Every key of a table and every handle answered is the process's own, and every address
was answered when it was allocated. -/
structure Enclosed (A : Allocator) (s : Env × List (Reply Handle)) : Prop where
  classes : ∀ h ∈ s.1.gClassNameMap, h ∈ A.own s.1.news
  methods : ∀ h ∈ s.1.gMethodIDMap, h ∈ A.own s.1.news
  carried : ∀ a ∈ s.2, ∀ h ∈ a.answer.carried?, h ∈ A.own s.1.news
  answered : ∀ h ∈ A.used s.1.news, ∃ a ∈ s.2, a.answer.carried? = some h

theorem enclosed_start (A : Allocator) : Enclosed A (initial Env.start, []) where
  classes h hh := absurd hh (by simp [initial, Env.start])
  methods h hh := absurd hh (by simp [initial, Env.start])
  carried a ha := absurd ha List.not_mem_nil
  answered h hh := by
    obtain ⟨i, hi, -⟩ := hh
    exact absurd hi (Nat.not_lt_zero i)

section Enclosed

variable {A : Allocator} {s : Env} {answers : List (Reply Handle)} {c : Call Handle}

theorem Enclosed.resolve (he : Enclosed A (s, answers)) {a : Arg} (ha : ∀ v, a = .fixed v → v = 0) :
    a.resolve id answers ∈ A.own s.news := by
  cases a with
  | fixed v => exact Or.inl (by rw [ha v rfl]; exact Nat.zero_le 1)
  | result i =>
    simp only [Arg.resolve]
    cases hi : answers[i]? with
    | none => exact Or.inl (Nat.zero_le 1)
    | some r =>
      cases hr : r.answer.handle? with
      | none => exact Or.inl (by simp [hr])
      | some h =>
        simpa [hr] using he.carried r (List.mem_of_getElem? hi) h (Answer.carried?_of_handle? hr)

theorem own_serve (A : Allocator) (s : Env) (c : Call Handle) :
    A.own s.news ⊆ A.own (serve A s c).env.news := by
  refine A.own_mono ?_
  rw [serve_news]
  split <;> omega

theorem Enclosed.found (he : Enclosed A (s, answers)) (c : Call Handle) :
    (s.interned A c).1 ∈ A.own (serve A s c).env.news := by
  cases hb : (s.interned A c).2 with
  | true => exact Or.inr (used_serve.mpr (Or.inr ⟨hb, rfl⟩))
  | false =>
    refine own_serve A s c ?_
    cases hc : c.interned? with
    | none => exact Or.inl (by rw [Env.interned, hc]; exact Nat.zero_le 1)
    | some μ =>
      rcases interned_key hc hb with hk | hk
      · exact he.classes _ hk
      · exact he.methods _ hk

/-- **A call with handles of the process's own leaves it enclosed.** -/
theorem enclosed_serve (he : Enclosed A (s, answers)) (hc : ∀ h ∈ c.handles, h ∈ A.own s.news) :
    Enclosed A ((serve A s c).env, answers ++ [s.reply A c]) where
  classes h hh := by
    rcases classKey_after hh with hh | hh | ⟨-, rfl⟩
    · exact own_serve A s c (he.classes h hh)
    · exact own_serve A s c (hc h hh)
    · exact he.found c
  methods h hh := by
    rcases methodKey_after hh with hh | hh | ⟨-, rfl⟩
    · exact own_serve A s c (he.methods h hh)
    · exact own_serve A s c (hc h hh)
    · exact he.found c
  carried a ha h hh := by
    rcases List.mem_append.mp ha with ha | ha
    · exact own_serve A s c (he.carried a ha h hh)
    · rw [List.mem_singleton.mp ha, serve_observe] at hh
      rcases carried_observe _ _ _ _ _ hh with hh | rfl | rfl | rfl
      · exact own_serve A s c (hc h hh)
      · exact he.found c
      · exact Or.inl (Nat.zero_le 1)
      · exact Or.inl (Nat.le_refl 1)
  answered h hh := by
    rcases used_serve.mp hh with hh | ⟨hb, rfl⟩
    · obtain ⟨a, ha, hcar⟩ := he.answered h hh
      exact ⟨a, List.mem_append_left _ ha, hcar⟩
    · refine ⟨s.reply A c, List.mem_append_right _ List.mem_cons_self, ?_⟩
      rw [serve_observe]
      exact carried_interned (interned?_of_fresh hb) _ _ _ _

end Enclosed

/-! ## Empty names -/

section Nameless

variable {A : Allocator} {s : Env} {c : Call Handle}

theorem meaning_nameless (hs : WF A s) (hc : ¬ c.Named) (hb : (s.interned A c).2 = true) :
    ¬ ((serve A s c).env.meaning (s.interned A c).1).Real := by
  have hs' := serve_wf hs c
  rw [interned_addr hb]
  intro hr
  cases hm : (serve A s c).env.meaning (A.addr s.news) with
  | cls n =>
    rw [hm] at hr
    rcases serve_binds_class hs ((meaning_eq_cls_iff hr).mp hm) with hn | rfl
    · exact hs.classes.unbound (A.next_not_used _) n hn
    · exact hc fun μ hμ => Option.some.inj hμ ▸ hr
  | method t =>
    rw [hm] at hr
    rcases serve_binds_method hs ((meaning_eq_method_iff hs' hr).mp hm) with ht | ⟨cls, fn, hl⟩
    · exact hs.methods.unbound (A.next_not_used _) t ht
    · refine hc fun μ hμ => ?_
      cases c <;> cases hl <;> exact Option.some.inj hμ ▸ hr
  | value v => rw [hm] at hr; exact hr

theorem clsName_of_not_real (hs : WF A s) {h : Handle} (hr : ¬ (s.meaning h).Real) :
    s.clsName h = "" := by
  rw [← (reading_meaning hs h).1, meaning_eq_value hr]
  rfl

theorem nameSig_of_not_real (hs : WF A s) {h : Handle} (hr : ¬ (s.meaning h).Real) :
    s.nameSig h = "" := by
  rw [← (reading_meaning hs h).2.1, meaning_eq_value hr]
  rfl

theorem eq_findClass {η : Type} {c : Call η} (hc : ¬ c.Named) (hl : c.lookup? = none) :
    c = .findClass "" := by
  cases c with
  | findClass n =>
    by_contra hn
    exact hc fun μ hμ => Option.some.inj hμ ▸ fun h => hn (congrArg Call.findClass h)
  | getMethodID cls n sig => cases hl
  | getStaticMethodID cls n sig => cases hl
  | _ => exact absurd (fun μ hμ => by cases hμ) hc

/-- `FindClass` of the empty name finds a key that holds it. -/
theorem classEntry_found (hc : ¬ c.Named) (hl : c.lookup? = none)
    (hb : (s.interned A c).2 = false) :
    (serve A s c).env.gClassNameMap[(s.interned A c).1]? = some "" := by
  obtain rfl := eq_findClass hc hl
  cases hsearch : search s.gClassNameMap "" with
  | none => simp [Env.interned, Call.interned?, Env.locate?, hsearch] at hb
  | some k =>
    simpa [serve, hookFindClass, Effect.answer, Env.interned, Call.interned?, Env.locate?,
      hsearch] using getElem?_of_search hsearch

/-- What a search for an empty name ends at has no class name. -/
theorem clsName_nameless (hs : WF A s) (hc : ¬ c.Named)
    (hb : c.lookup? ≠ none → (s.interned A c).2 = true) :
    (serve A s c).env.clsName (s.interned A c).1 = "" := by
  cases hfresh : (s.interned A c).2 with
  | true => exact clsName_of_not_real (serve_wf hs c) (meaning_nameless hs hc hfresh)
  | false =>
    have hl : c.lookup? = none := by
      by_contra hne
      rw [hb hne] at hfresh
      cases hfresh
    rw [Env.clsName, peek, Std.ExtTreeMap.getD_eq_getD_getElem?, classEntry_found hc hl hfresh]
    rfl

end Nameless

/-! ## Renamings -/

/-- `f` takes the addresses of a process that began with empty tables to those of another
one to one, with the names they have. -/
structure Renames (A A' : Allocator) (f : Handle → Handle) (s s' : Env) : Prop where
  injOn : Set.InjOn f (A'.used s'.news)
  mapsTo : Set.MapsTo f (A'.used s'.news) (A.used s.news)
  fixed : ∀ v, v ∉ A'.used s'.news → f v = v
  named : ∀ h, (s'.meaning h).Real → s.meaning (f h) = s'.meaning h
  nameless : ∀ h ∈ A'.used s'.news, ¬ (s'.meaning h).Real → s.clsName (f h) = ""

/-- The search for the name of a call ends at an address: one that is allocated, or the
next one when the table has no entry. -/
def Env.EndsAtAddress (A : Allocator) (s : Env) (c : Call Handle) : Prop :=
  (s.interned A c).1 ∈ A.used s.news ∨ (s.interned A c).2 = true

instance {A : Allocator} {s : Env} {c : Call Handle} : Decidable (s.EndsAtAddress A c) :=
  inferInstanceAs (Decidable (_ ∨ _))

theorem endsAtAddress_iff {A : Allocator} {s : Env} {c : Call Handle} :
    s.EndsAtAddress A c ↔ (s.interned A c).1 ∈ A.used (serve A s c).env.news := by
  rw [used_serve, Env.EndsAtAddress, and_iff_left rfl]

/-- The searches of the two processes for an empty name end alike: at one handle of both,
or at the first of its kind, and a look-up logs in both or in neither. -/
structure SameEntry (A A' : Allocator) (s s' : Env × List (Reply Handle)) (c c' : Call Handle) :
    Prop where
  stored : c'.lookup? ≠ none → (s.1.interned A c).2 = (s'.1.interned A' c').2
  answered : ∀ p ∈ s.2.zip s'.2, p.1.answer.carried? = some (s.1.interned A c).1 ↔
    p.2.answer.carried? = some (s'.1.interned A' c').1
  address : s'.1.EndsAtAddress A' c' → s.1.EndsAtAddress A c
  value : ¬ s'.1.EndsAtAddress A' c' → (s.1.interned A c).1 = (s'.1.interned A' c').1

section Renames

variable {A A' : Allocator} {f : Handle → Handle} {s s' : Env}

theorem renames_start (A A' : Allocator) (s : Env) : Renames A A' id s (initial Env.start) := by
  have hnone : ∀ h, h ∉ A'.used (initial Env.start).news := by
    rintro h ⟨i, hi, -⟩
    exact absurd hi (Nat.not_lt_zero i)
  exact ⟨fun h hh => absurd hh (hnone h), fun h hh => absurd hh (hnone h), fun _ _ => rfl,
    fun h hr => absurd (used_of_meaning (wf_initial A') hr) (hnone h),
    fun h hh => absurd hh (hnone h)⟩

theorem Renames.keep (hr : Renames A A' f s s') (hs : WF A s) (hs' : WF A' s')
    {c c' : Call Handle} (hb : (s'.interned A' c').2 = false) :
    Renames A A' f (serve A s c).env (serve A' s' c').env := by
  have hused : A'.used (serve A' s' c').env.news = A'.used s'.news := by
    rw [serve_news, hb]
    rfl
  have hsame : ∀ h ∈ A'.used s'.news, (serve A' s' c').env.meaning h = s'.meaning h :=
    fun h hh => serve_meaning hs' c' (ne_addr_of_used hh)
  refine ⟨by rw [hused]; exact hr.injOn, fun h hh => ?_, by rw [hused]; exact hr.fixed,
    fun h hreal => ?_, fun h hh hnot => ?_⟩
  · rw [hused] at hh
    exact A.used_mono (serve_grows hs c).news (hr.mapsTo hh)
  · have hh := used_of_meaning (serve_wf hs' c') hreal
    rw [hused] at hh
    rw [hsame h hh] at hreal ⊢
    rw [serve_meaning hs c (ne_addr_of_used (hr.mapsTo hh)), hr.named h hreal]
  · rw [hused] at hh
    rw [hsame h hh] at hnot
    rw [(serve_reads hs c (ne_addr_of_used (hr.mapsTo hh))).1]
    exact hr.nameless h hh hnot

/-- A call that allocates extends the renaming by the new address. -/
theorem Renames.extend (hr : Renames A A' f s s') (hs : WF A s) (hs' : WF A' s')
    {c c' : Call Handle} (hb : (s'.interned A' c').2 = true) {x : Handle}
    (hx : x ∈ A.used (serve A s c).env.news) (hnew : ∀ h ∈ A'.used s'.news, f h ≠ x)
    (hnamed : ((serve A' s' c').env.meaning (A'.addr s'.news)).Real →
      (serve A s c).env.meaning x = (serve A' s' c').env.meaning (A'.addr s'.news))
    (hnameless : ¬ ((serve A' s' c').env.meaning (A'.addr s'.news)).Real →
      (serve A s c).env.clsName x = "") :
    Renames A A' (Function.update f (A'.addr s'.news) x) (serve A s c).env
      (serve A' s' c').env := by
  have hused : A'.used (serve A' s' c').env.news = insert (A'.addr s'.news) (A'.used s'.news) := by
    rw [serve_news, hb, if_pos rfl, A'.used_succ]
  have hold : ∀ h ∈ A'.used s'.news, Function.update f (A'.addr s'.news) x h = f h :=
    fun h hh => Function.update_of_ne (ne_addr_of_used hh) _ _
  have hsame : ∀ h ∈ A'.used s'.news, (serve A' s' c').env.meaning h = s'.meaning h :=
    fun h hh => serve_meaning hs' c' (ne_addr_of_used hh)
  refine ⟨?_, ?_, ?_, ?_, ?_⟩
  · rw [hused]
    rintro h (rfl | hh) k (rfl | hk) heq
    · rfl
    · rw [Function.update_self, hold k hk] at heq
      exact absurd heq.symm (hnew k hk)
    · rw [Function.update_self, hold h hh] at heq
      exact absurd heq (hnew h hh)
    · rw [hold h hh, hold k hk] at heq
      exact hr.injOn hh hk heq
  · rw [hused]
    rintro h (rfl | hh)
    · rwa [Function.update_self]
    · rw [hold h hh]
      exact A.used_mono (serve_grows hs c).news (hr.mapsTo hh)
  · intro v hv
    rw [hused, Set.mem_insert_iff, not_or] at hv
    rw [Function.update_of_ne hv.1, hr.fixed v hv.2]
  · intro h hreal
    have hh := used_of_meaning (serve_wf hs' c') hreal
    rw [hused] at hh
    rcases hh with rfl | hh
    · rw [Function.update_self]
      exact hnamed hreal
    · rw [hsame h hh] at hreal ⊢
      rw [hold h hh, serve_meaning hs c (ne_addr_of_used (hr.mapsTo hh)), hr.named h hreal]
  · rw [hused]
    rintro h (rfl | hh) hnot
    · rw [Function.update_self]
      exact hnameless hnot
    · rw [hsame h hh] at hnot
      rw [hold h hh, (serve_reads hs c (ne_addr_of_used (hr.mapsTo hh))).1]
      exact hr.nameless h hh hnot

theorem Renames.next (hr : Renames A A' f s s') (hs : WF A s) (hs' : WF A' s') {c c' : Call Handle}
    (hfound : (s'.interned A' c').2 = false → f (s'.interned A' c').1 = (s.interned A c).1)
    (hx : (s'.interned A' c').2 = true → (s.interned A c).1 ∈ A.used (serve A s c).env.news)
    (hnew : (s'.interned A' c').2 = true → ∀ h ∈ A'.used s'.news, f h ≠ (s.interned A c).1)
    (hnamed : (s'.interned A' c').2 = true →
      ((serve A' s' c').env.meaning (s'.interned A' c').1).Real →
        (serve A s c).env.meaning (s.interned A c).1 =
          (serve A' s' c').env.meaning (s'.interned A' c').1)
    (hnameless : (s'.interned A' c').2 = true →
      ¬ ((serve A' s' c').env.meaning (s'.interned A' c').1).Real →
        (serve A s c).env.clsName (s.interned A c).1 = "") :
    ∃ g, Renames A A' g (serve A s c).env (serve A' s' c').env ∧
      (∀ h, h ≠ A'.addr s'.news → g h = f h) ∧ g (s'.interned A' c').1 = (s.interned A c).1 := by
  cases hb : (s'.interned A' c').2 with
  | false => exact ⟨f, hr.keep hs hs' hb, fun _ _ => rfl, hfound hb⟩
  | true =>
    have haddr := interned_addr hb
    rw [haddr] at hnamed hnameless ⊢
    exact ⟨_, hr.extend hs hs' hb (hx hb) (hnew hb) (hnamed hb) (hnameless hb),
      fun h hh => Function.update_of_ne hh _ _, Function.update_self _ _ _⟩

/-- A name is found by both, or it is new to the process that began with empty tables. -/
theorem Renames.next_named {r r' : Registry} (hr : Renames A A' f s s') (hrep : Represents A s r)
    (hrep' : Represents A' s' r') {c c' : Call Handle} {μ : Meaning} (hc : c.interned? = some μ)
    (hc' : c'.interned? = some μ) (hμ : μ.Real)
    (hknown : ∀ t, μ = .method t → μ ∈ r.known → μ ∈ r'.known) :
    ∃ g, Renames A A' g (serve A s c).env (serve A' s' c').env ∧
      (∀ h, h ≠ A'.addr s'.news → g h = f h) ∧ g (s'.interned A' c').1 = (s.interned A c).1 := by
  have hm := interned_meaning hrep.wf hc hμ
  have hm' := interned_meaning hrep'.wf hc' hμ
  refine hr.next hrep.wf hrep'.wf (fun hb => ?_) (fun hb => ?_) (fun hb h hh heq => ?_)
    (fun _ _ => hm.trans hm'.symm) fun _ hnot => absurd (hm' ▸ hμ) hnot
  · cases hl : s'.locate? μ with
    | none =>
      rw [Env.interned, hc'] at hb
      simp [hl] at hb
    | some k =>
      have hk := (locate?_eq_some_iff hrep'.wf hμ).mp hl
      have hfk : s.meaning (f k) = μ := (hr.named k (hk ▸ hμ)).trans hk
      simp [Env.interned, hc, hc', hl, (locate?_eq_some_iff hrep.wf hμ).mpr hfk]
  · exact used_of_meaning (serve_wf hrep.wf c) (hm ▸ hμ)
  · have hmiss : ∀ k, s'.meaning k ≠ μ := by
      intro k hk
      rw [Env.interned, hc'] at hb
      simp [(locate?_eq_some_iff hrep'.wf hμ).mpr hk] at hb
    have hfh : s.meaning (f h) = μ := by
      rwa [← heq, serve_meaning hrep.wf c (ne_addr_of_used (hr.mapsTo hh))] at hm
    by_cases hreal : (s'.meaning h).Real
    · exact hmiss h ((hr.named h hreal).symm.trans hfh)
    · have hread := (reading_meaning hrep.wf (f h)).1
      rw [hfh, hr.nameless h hh hreal] at hread
      cases μ with
      | cls n => exact hμ hread
      | method t =>
        have hk := hknown t rfl ((hrep.known _ hμ).mp ⟨f h, hfh⟩)
        obtain ⟨k, hk⟩ := (hrep'.known _ hμ).mpr hk
        exact hmiss k hk
      | value v => exact hμ

theorem Answer.carried?_map {η θ : Type} (f : η → θ) (a : Answer η) :
    (a.map f).carried? = a.carried?.map f := by
  cases a <;> rfl

theorem mem_zip_map {α β : Type*} {g : α → β} {l : List α} {p : β × α} :
    p ∈ (l.map g).zip l ↔ ∃ a ∈ l, p = (g a, a) := by
  induction l with
  | nil => simp
  | cons b l ih => simp [ih]

/-- The searches for an empty name end alike. -/
theorem Renames.next_nameless {answers' : List (Reply Handle)} (hr : Renames A A' f s s')
    (hs : WF A s) (hs' : WF A' s') (he : Enclosed A' (s', answers')) {c c' : Call Handle}
    (hc : c.interned? = c'.interned?) (hlookup : c.lookup?.isSome = c'.lookup?.isSome)
    (hnot : ¬ c'.Named)
    (hsame : SameEntry A A' (s, answers'.map (Reply.map f)) (s', answers') c c') :
    ∃ g, Renames A A' g (serve A s c).env (serve A' s' c').env ∧
      (∀ h, h ≠ A'.addr s'.news → g h = f h) ∧ g (s'.interned A' c').1 = (s.interned A c).1 := by
  have hanswered : ∀ h ∈ A'.used s'.news,
      (f h = (s.interned A c).1 ↔ h = (s'.interned A' c').1) := by
    intro h hh
    obtain ⟨a, ha, hcar⟩ := he.answered h hh
    have hiff := hsame.answered _ (mem_zip_map.mpr ⟨a, ha, rfl⟩)
    rwa [Reply.answer_map, Answer.carried?_map, hcar, Option.map_some, Option.some_inj,
      Option.some_inj] at hiff
  refine hr.next hs hs' (fun hb => ?_) (fun hb => ?_) (fun hb h hh heq => ?_)
    (fun hb hreal => absurd hreal (meaning_nameless hs' hnot hb)) fun hb _ => ?_
  · by_cases hx : (s'.interned A' c').1 ∈ A'.used s'.news
    · exact (hanswered _ hx).mpr rfl
    · rw [hr.fixed _ hx]
      refine (hsame.value fun hu => ?_).symm
      rcases hu with hu | hb'
      · exact hx hu
      · rw [hb] at hb'
        cases hb'
  · exact endsAtAddress_iff.mp (hsame.address (Or.inr hb))
  · rw [(hanswered h hh).mp heq, interned_addr hb] at hh
    exact A'.next_not_used _ hh
  · refine clsName_nameless hs (fun hn => hnot fun μ hμ => hn μ (by rw [hc]; exact hμ)) fun hl => ?_
    rw [hsame.stored fun hl' => hl (by simpa [hl'] using hlookup), hb]

theorem not_used_of_le_one (h1 : ∀ i, A.addr i ≠ 1) {v : Handle} (hv : v ≤ 1) (k : Nat) :
    v ∉ A.used k := by
  rintro ⟨i, -, rfl⟩
  rcases Nat.le_one_iff_eq_zero_or_eq_one.mp hv with h | h
  · exact A.ne_null i h
  · exact h1 i h

theorem Renames.clsName_eq (h1 : ∀ i, A.addr i ≠ 1) (h1' : ∀ i, A'.addr i ≠ 1)
    (hr : Renames A A' f s s') (hs : WF A s) (hs' : WF A' s') {h : Handle}
    (hh : h ∈ A'.own s'.news) : s.clsName (f h) = s'.clsName h := by
  by_cases hreal : (s'.meaning h).Real
  · rw [← (reading_meaning hs (f h)).1, hr.named h hreal, (reading_meaning hs' h).1]
  · rw [clsName_of_not_real hs' hreal]
    rcases hh with hle | hu
    · rw [hr.fixed h (not_used_of_le_one h1' hle _)]
      exact clsName_of_not_real hs fun hr => not_used_of_le_one h1 hle _ (used_of_meaning hs hr)
    · exact hr.nameless h hu hreal

theorem Renames.nameSig_eq (h1 : ∀ i, A.addr i ≠ 1) (h1' : ∀ i, A'.addr i ≠ 1)
    (hr : Renames A A' f s s') (hs : WF A s) (hs' : WF A' s') {h : Handle}
    (hh : h ∈ A'.own s'.news)
    (hempty : h ∈ A'.used s'.news → ¬ (s'.meaning h).Real → s.nameSig (f h) = "") :
    s.nameSig (f h) = s'.nameSig h := by
  by_cases hreal : (s'.meaning h).Real
  · rw [← (reading_meaning hs (f h)).2.1, hr.named h hreal, (reading_meaning hs' h).2.1]
  · rw [nameSig_of_not_real hs' hreal]
    rcases hh with hle | hu
    · rw [hr.fixed h (not_used_of_le_one h1' hle _)]
      exact nameSig_of_not_real hs fun hr => not_used_of_le_one h1 hle _ (used_of_meaning hs hr)
    · exact hempty hu hreal

theorem Renames.isNull_eq (h1' : ∀ i, A'.addr i ≠ 1) (hr : Renames A A' f s s') {h : Handle}
    (hh : h ∈ A'.own s'.news) : (f h == 0) = (h == 0) := by
  rcases hh with hle | hu
  · rw [hr.fixed h (not_used_of_le_one h1' hle _)]
  · have hne := Allocator.ne_null_of_used hu
    have hne' := Allocator.ne_null_of_used (hr.mapsTo hu)
    simp [hne, hne']

@[simp]
theorem Call.lookup?_isSome_map {η θ : Type} (f : η → θ) (c : Call η) :
    (c.map f).lookup?.isSome = c.lookup?.isSome := by
  cases c <;> rfl

section Serve

variable {r r' : Registry} {answers' : List (Reply Handle)} {c' : Call Handle}

theorem Renames.next_call (h1' : ∀ i, A'.addr i ≠ 1) (hr : Renames A A' f s s')
    (hrep : Represents A s r) (hrep' : Represents A' s' r') (he : Enclosed A' (s', answers'))
    (htexts : ∀ t ≠ "", c'.interned? = some (.method t) →
      (Meaning.method t ∈ r.known ↔ Meaning.method t ∈ r'.known))
    (hsame : ¬ c'.Named → SameEntry A A' (s, answers'.map (Reply.map f)) (s', answers')
      (c'.map f) c') :
    ∃ g, Renames A A' g (serve A s (c'.map f)).env (serve A' s' c').env ∧
      (∀ h ∈ A'.own s'.news, g h = f h) ∧
        g (s'.interned A' c').1 = (s.interned A (c'.map f)).1 := by
  have hown : ∀ h ∈ A'.own s'.news, h ≠ A'.addr s'.news := by
    rintro h (hle | hu) rfl
    · rcases Nat.le_one_iff_eq_zero_or_eq_one.mp hle with h | h
      · exact A'.ne_null _ h
      · exact h1' _ h
    · exact A'.next_not_used _ hu
  cases hi : c'.interned? with
  | none =>
    have hentry : ∀ (B : Allocator) (e : Env) (c : Call Handle), c.interned? = none →
        e.interned B c = (0, false) := by
      intro B e c hc
      rw [Env.interned, hc]
    have hi' : (c'.map f).interned? = none := by rw [Call.interned?_map, hi]
    have hb : (s'.interned A' c').2 = false := by rw [hentry _ _ _ hi]
    refine ⟨f, hr.keep hrep.wf hrep'.wf hb, fun _ _ => rfl, ?_⟩
    rw [hentry _ _ _ hi, hentry _ _ _ hi']
    exact hr.fixed 0 fun hu => Allocator.ne_null_of_used hu rfl
  | some μ =>
    have hi' : (c'.map f).interned? = some μ := by rw [Call.interned?_map, hi]
    have key : ∃ g, Renames A A' g (serve A s (c'.map f)).env (serve A' s' c').env ∧
        (∀ h, h ≠ A'.addr s'.news → g h = f h) ∧
          g (s'.interned A' c').1 = (s.interned A (c'.map f)).1 := by
      by_cases hμ : μ.Real
      · refine hr.next_named hrep hrep' hi' hi hμ ?_
        rintro t rfl hk
        exact (htexts t hμ hi).mp hk
      · have hnot : ¬ c'.Named := fun hn => hμ (hn μ hi)
        exact hr.next_nameless hrep.wf hrep'.wf he (Call.interned?_map f c')
          (Call.lookup?_isSome_map f c') hnot (hsame hnot)
    obtain ⟨g, hg, hsame, hfound⟩ := key
    exact ⟨g, hg, fun h hh => hsame h (hown h hh), hfound⟩

/-- **One call in two processes.**  The reply of the one is the reply of the other, renamed. -/
theorem Renames.serve (h1 : ∀ i, A.addr i ≠ 1) (h1' : ∀ i, A'.addr i ≠ 1)
    (hr : Renames A A' f s s') (hrep : Represents A s r) (hrep' : Represents A' s' r')
    (he : Enclosed A' (s', answers')) (hown : ∀ h ∈ c'.handles, h ∈ A'.own s'.news)
    (htexts : ∀ t ≠ "", c'.interned? = some (.method t) →
      (Meaning.method t ∈ r.known ↔ Meaning.method t ∈ r'.known))
    (hpending : c' = .exceptionOccurred → r.pending = r'.pending)
    (hsame : ¬ c'.Named → SameEntry A A' (s, answers'.map (Reply.map f)) (s', answers')
      (c'.map f) c')
    (hmid : ∀ slot o m args, c' = .call slot o m args → m ∈ A'.used s'.news →
      ¬ (s'.meaning m).Real → s.nameSig (f m) = "") :
    ∃ g, Renames A A' g (serve A s (c'.map f)).env (serve A' s' c').env ∧
      (∀ h ∈ A'.own s'.news, g h = f h) ∧ s.reply A (c'.map f) = (s'.reply A' c').map g := by
  obtain ⟨g, hg, hold, hfound⟩ := hr.next_call h1' hrep hrep' he htexts hsame
  have hargs : c'.map f = c'.map g := Call.map_congr fun h hh => (hold h (hown h hh)).symm
  have hfresh : c'.lookup? ≠ none →
      (s.interned A (c'.map f)).2 = (s'.interned A' c').2 := by
    intro hl
    by_cases hn : c'.Named
    · have hn' : (c'.map f).Named := by rwa [Call.Named, Call.interned?_map]
      rw [interned_fresh hrep hn', interned_fresh hrep' hn, Registry.fresh, Registry.fresh,
        Call.interned?_map]
      obtain ⟨⟨cls, fn, t⟩, hp⟩ := Option.ne_none_iff_exists'.mp hl
      have hi : c'.interned? = some (.method t) := by cases c' <;> cases hp <;> rfl
      simp [hi, htexts t (hn _ hi) hi]
    · exact (hsame hn).stored hl
  refine ⟨g, hg, hold, ?_⟩
  rw [serve_observe, serve_observe, ← hfound, hargs]
  refine observe_map g _ (fun hocc => ?_) (fun hl => by rw [← hargs]; exact hfresh hl)
    (fun h hh => ?_) (fun slot o m args hm => ?_) (fun h hh => ?_) fun v hv => ?_
  · rw [hrep.pending, hrep'.pending, hpending hocc]
  · rw [hold h (hown h hh)]
    exact hr.clsName_eq h1 h1' hrep.wf hrep'.wf (hown h hh)
  · have hin : m ∈ c'.handles := by simp [hm, Call.handles]
    rw [hold m (hown m hin)]
    exact hr.nameSig_eq h1 h1' hrep.wf hrep'.wf (hown m hin) (hmid slot o m args hm)
  · rw [hold h (hown h hh)]
    exact hr.isNull_eq h1' (hown h hh)
  · have hz := not_used_of_le_one h1' hv s'.news
    exact (hold v (Or.inl hv)).trans (hr.fixed v hz)

end Serve

end Renames

end JniDegger.FakeEnv
