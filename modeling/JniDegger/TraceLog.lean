import JniDegger.HandleTables

/-!
# Which method look-ups reach the log

The two look-up hooks share one table and return a text they find there before
they reach their `ALOGD`.  Proved here, for every run:

* `mem_lines_lookup`: a look-up line is logged exactly by a look-up whose text
  the table did not hold;
* `lookup_origin`: a text is in the table exactly when an earlier look-up of the
  run asked for it;
* `lookup_traced_iff`: a look-up on a class is in the log exactly when the first
  look-up of its text was made through the same hook on the same class;
* `not_traceComplete`: a second class with the same method is missing.
-/

namespace JniDegger.FakeEnv

open Runs InternTable

/-- The line a look-up hook logs. -/
def lookupLine (fn clsName nameSig : String) : LogLine := alogd "%s %s.%s" [fn, clsName, nameSig]

theorem lookupLine_inj {fn fn' c c' t t' : String} :
    lookupLine fn c t = lookupLine fn' c' t' ↔ fn = fn' ∧ c = c' ∧ t = t' := by
  simp [lookupLine, alogd]

/-- No other hook logs with the format of the look-up lines. -/
theorem fmt_of_not_lookup (A : Allocator) (s : Env) {c : Call Handle} (hc : c.lookup? = none) :
    ∀ l ∈ (serve A s c).lines, l.fmt ≠ "%s %s.%s" := by
  cases c with
  | getMethodID => cases hc
  | getStaticMethodID => cases hc
  | findClass n =>
    simp only [serve, hookFindClass, Effect.answer]
    split <;> simp
  | registerNatives cls ms n =>
    intro l hl
    obtain ⟨m, -, rfl⟩ := List.mem_map.mp hl
    simp
  | call slot obj mid args =>
    cases slot <;>
      simp [serve, CallSlot.serve, Effect.answer, hookCallStaticObjectMethod,
        hookCallStaticObjectMethodA, hookCallStaticObjectMethodV, hookCallObjectMethod,
        hookCallObjectMethodA, hookCallObjectMethodV, hookCallStaticLongMethodV, hookNewObject,
        hookNewObjectV, hookNewObjectA, callHook, alogd, funcLog]
  | getObjectClass obj =>
    simp only [serve, hookGetObjectClass, Effect.answer]
    split <;> simp [alogd]
  | getStringUTFChars str =>
    simp only [serve, hookGetStringUTFChars, Effect.answer]
    split <;> simp [alogd, funcLog]
  | _ =>
    intro l hl
    simp only [serve, Effect.answer, hookFromReflectedMethod, hookFromReflectedField,
      hookToReflectedMethod, hookDeleteGlobalRef, hookNewGlobalRef, hookExceptionClear,
      hookExceptionDescribe, hookFatalError, tryError, hookPushLocalFrame, hookExceptionCheck,
      hookExceptionOccurred, hookReleaseStringUTFChars, hookThrow, hookGetEnv, hookDestoryJavaVM,
      hookDetachCurrentThread, hookAttachCurrentThread, hookAttachCurrentThreadAsDaemon,
      funcLog, alogd, List.mem_cons, List.not_mem_nil, or_false] at hl
    rcases hl with rfl | rfl <;> simp

/-- **Which call logs a look-up line**: a look-up through that hook, on a handle
that reads as that class, of that text, when the table does not hold it. -/
theorem mem_lines_lookup (A : Allocator) (s : Env) (c : Call Handle) {fn cls t : String} :
    lookupLine fn cls t ∈ (serve A s c).lines ↔
      ∃ h, c.lookup? = some (h, fn, t) ∧ s.clsName h = cls ∧ search s.gMethodIDMap t = none := by
  cases hc : c.lookup? with
  | none =>
    constructor
    · intro hl
      exact absurd rfl (fmt_of_not_lookup A s hc _ hl)
    · rintro ⟨h, he, -⟩
      cases he
  | some p =>
    obtain ⟨h, fn', t'⟩ := p
    rw [serve_lookup A s hc]
    have htable : (s.touchClass h).gMethodIDMap = s.gMethodIDMap := rfl
    simp only [methodLookup, Effect.answer, htable]
    cases hm : search s.gMethodIDMap t' with
    | some k =>
      simp only [List.not_mem_nil, false_iff]
      rintro ⟨h', he, -, hn⟩
      cases he
      rw [hm] at hn
      cases hn
    | none =>
      rw [List.mem_singleton, ← lookupLine, lookupLine_inj]
      constructor
      · rintro ⟨rfl, rfl, rfl⟩
        exact ⟨h, rfl, rfl, hm⟩
      · rintro ⟨h', he, hcls, -⟩
        cases he
        exact ⟨rfl, hcls.symm, rfl⟩

/-! ## Where the texts in the table come from -/

section Run

variable {A : Allocator} {calls : List (Call Handle)}

/-- The text event `k` of a run looks up, if it is a look-up. -/
def lookupTextAt (events : List (Event Env (Call Handle) (Reply Handle))) (k : Nat) :
    Option String :=
  events[k]?.bind fun e => e.input.lookup?.map fun p => p.2.2

theorem lookupTextAt_eq_some {events : List (Event Env (Call Handle) (Reply Handle))} {k : Nat}
    {t : String} : lookupTextAt events k = some t ↔
      ∃ e h fn, events[k]? = some e ∧ e.input.lookup? = some (h, fn, t) := by
  simp only [lookupTextAt, Option.bind_eq_some_iff, Option.map_eq_some_iff, Prod.exists]
  constructor
  · rintro ⟨e, he, h, fn, t', hc, rfl⟩
    exact ⟨e, h, fn, he, hc⟩
  · rintro ⟨e, h, fn, he, hc⟩
    exact ⟨e, he, h, fn, t, hc, rfl⟩

/-- A text bound before event `k` was looked up by an earlier event. -/
theorem lookup_of_binds {k : Nat} {g : Event Env (Call Handle) (Reply Handle)} {h : Handle}
    {t : String} (hk : (run A calls)[k]? = some g) (hb : Binds g.before.gMethodIDMap h t) :
    ∃ l < k, lookupTextAt (run A calls) l = some t := by
  induction k generalizing g with
  | zero =>
    rw [Machine.before_of_getElem?_zero hk] at hb
    exact absurd hb (not_binds_empty h t)
  | succ k ih =>
    obtain ⟨e, he, hbe⟩ := Machine.before_of_getElem?_succ hk
    obtain ⟨-, ha⟩ := run_serve (List.mem_of_getElem? he)
    have hw := (run_wf (List.mem_of_getElem? he)).1
    rw [hbe, ha] at hb
    rcases serve_binds_method hw hb with hb | ⟨cls, fn, hc⟩
    · obtain ⟨l, hl, hlt⟩ := ih he hb
      exact ⟨l, by omega, hlt⟩
    · exact ⟨k, by omega, lookupTextAt_eq_some.mpr ⟨e, cls, fn, he, hc⟩⟩

/-- **Where a stored text comes from**: before event `k` the table misses a real
text exactly when no earlier event looked it up. -/
theorem lookup_origin {k : Nat} {g : Event Env (Call Handle) (Reply Handle)} {t : String}
    (ht : t ≠ "") (hk : (run A calls)[k]? = some g) :
    search g.before.gMethodIDMap t = none ↔
      ∀ l < k, lookupTextAt (run A calls) l ≠ some t := by
  rw [search_eq_none_iff_binds ht]
  constructor
  · intro hmiss l hl hlt
    obtain ⟨e, h, fn, he, hc⟩ := lookupTextAt_eq_some.mp hlt
    obtain ⟨r, -, hb⟩ := run_lookup he hc ht
    exact hmiss r ((Machine.pairwise_getElem? run_grows hl he hk).methods r t hb)
  · intro hnone h hb
    obtain ⟨l, hl, hlt⟩ := lookup_of_binds hk hb
    exact hnone l hl hlt

/-! ## The log up to a call -/

theorem mem_log_take {η σ ι : Type} {events : List (Event σ ι (Reply η))} {j : Nat}
    {line : LogLine} : line ∈ log (events.take (j + 1)) ↔
      ∃ k ≤ j, ∃ e, events[k]? = some e ∧ line ∈ e.output.lines := by
  simp only [log, List.mem_flatMap, List.mem_take_iff_getElem]
  constructor
  · rintro ⟨e, ⟨k, hk, rfl⟩, hl⟩
    exact ⟨k, by omega, _, List.getElem?_eq_getElem (by omega), hl⟩
  · rintro ⟨k, hk, e, he, hl⟩
    obtain ⟨hlt, rfl⟩ := List.getElem?_eq_some_iff.mp he
    exact ⟨_, ⟨k, by omega, rfl⟩, hl⟩

/-- Event `k` looks up `t` through the hook `fn` on a handle that reads as the
class `c`. -/
def LooksUp (g : Event Env (Call Handle) (Reply Handle)) (fn c t : String) : Prop :=
  ∃ h, g.input.lookup? = some (h, fn, t) ∧ g.before.clsName h = c

/-- **Trace line of a look-up.**  The log up to event `j` names the class and
the text exactly when one of these events looked the text up through that hook
on that class while the table did not hold it. -/
theorem mem_log_lookup {j : Nat} {fn c t : String} :
    lookupLine fn c t ∈ log ((run A calls).take (j + 1)) ↔
      ∃ k ≤ j, ∃ g, (run A calls)[k]? = some g ∧ LooksUp g fn c t ∧
        search g.before.gMethodIDMap t = none := by
  rw [mem_log_take]
  refine exists_congr fun k => and_congr_right fun _ => exists_congr fun g =>
    and_congr_right fun hg => ?_
  rw [(run_serve (List.mem_of_getElem? hg)).1, mem_lines_lookup]
  constructor
  · rintro ⟨h, hc, hn, hm⟩
    exact ⟨⟨h, hc, hn⟩, hm⟩
  · rintro ⟨⟨h, hc, hn⟩, hm⟩
    exact ⟨h, hc, hn, hm⟩

end Run

/-- This look-up or an earlier one, through `fn` on the class `c`, met a table
that held no entry with the text. -/
def FreshLookup (events : List (Event Env (Call Handle) (Reply Handle))) (j : Nat)
    (fn c t : String) : Prop :=
  ∃ k ≤ j, ∃ g, events[k]? = some g ∧ LooksUp g fn c t ∧ search g.before.gMethodIDMap t = none

/-- If the text was looked up before event `j`, through either hook and on any
class, then first through `fn` on the class `c`. -/
def FirstLookup (events : List (Event Env (Call Handle) (Reply Handle))) (j : Nat)
    (fn c t : String) : Prop :=
  ∀ k < j, ∀ g, events[k]? = some g → lookupTextAt events k = some t →
    (∀ l < k, lookupTextAt events l ≠ some t) → LooksUp g fn c t

/-- Event `j` looks up a method of the class `c`, on a handle that `FindClass`
returned for `c` earlier in the run. -/
structure ClassLookup (events : List (Event Env (Call Handle) (Reply Handle))) (j : Nat)
    (b : Bool) (c name sig : String) : Prop where
  real : c ≠ ""
  found : ∃ i < j, ∃ d e h, events[i]? = some d ∧ events[j]? = some e ∧
    d.input = .findClass c ∧ d.output.answer = .jclass h ∧ e.input = .lookupMethod b h name sig

section Run

variable {A : Allocator} {calls : List (Call Handle)} {j : Nat} {b : Bool} {c name sig : String}

/-- The handle still reads as its class when the look-up is made. -/
theorem ClassLookup.looksUp (hl : ClassLookup (run A calls) j b c name sig) :
    ∃ e, (run A calls)[j]? = some e ∧ LooksUp e (lookupHook b) c (methodText b name sig) := by
  obtain ⟨i, hij, d, e, h, hd, he, hdi, hda, hei⟩ := hl.found
  obtain ⟨h', hh', hb⟩ := run_findClass hl.real hd hdi
  rw [hda] at hh'
  cases hh'
  have hgrow := Machine.pairwise_getElem? run_grows hij hd he
  exact ⟨e, he, h, hei ▸ lookup?_lookupMethod b h name sig, (hgrow.classes h c hb).peek_eq⟩

/-- For a real text the first look-up of the run decides. -/
theorem mem_log_iff_first (hl : ClassLookup (run A calls) j b c name sig)
    (ht : methodText b name sig ≠ "") :
    lookupLine (lookupHook b) c (methodText b name sig) ∈ log ((run A calls).take (j + 1)) ↔
      FirstLookup (run A calls) j (lookupHook b) c (methodText b name sig) := by
  rw [mem_log_lookup]
  constructor
  · rintro ⟨k₀, hk₀, g₀, hg₀, hlook, hmiss⟩ k hk g hg hkt hfirst
    have hfirst₀ := (lookup_origin ht hg₀).mp hmiss
    have hk₀t : lookupTextAt (run A calls) k₀ = some (methodText b name sig) := by
      obtain ⟨h, hc, -⟩ := hlook
      exact lookupTextAt_eq_some.mpr ⟨g₀, h, _, hg₀, hc⟩
    -- two first look-ups of one text are the same event
    rcases Nat.lt_trichotomy k k₀ with hlt | rfl | hlt
    · exact absurd hkt (hfirst₀ k hlt)
    · rw [hg₀] at hg
      exact Option.some.inj hg ▸ hlook
    · exact absurd hk₀t (hfirst k₀ hlt)
  · intro hfirst
    obtain ⟨e, he, hlook⟩ := hl.looksUp
    obtain ⟨h, hc, -⟩ := id hlook
    obtain ⟨k, hkj, hk, hmin⟩ := Machine.exists_first
      (P := fun k => lookupTextAt (run A calls) k = some (methodText b name sig))
      (lookupTextAt_eq_some.mpr ⟨e, h, lookupHook b, he, hc⟩)
    obtain ⟨g, h', fn, hg, -⟩ := lookupTextAt_eq_some.mp hk
    refine ⟨k, hkj, g, hg, ?_, (lookup_origin ht hg).mpr hmin⟩
    by_cases hlt : k < j
    · exact hfirst k hlt g hg hk hmin
    · rw [show k = j by omega, he] at hg
      exact Option.some.inj hg ▸ hlook

/-- **When a resolved method is in the trace.**  In every run, a look-up on a found
class is in the log by its end exactly when no look-up of the text through the other
hook or on another class came first.  For the empty text, which the entries planted by
`operator[]` match: exactly when it or an earlier look-up through the same hook on the
same class met a table without the text. -/
theorem lookup_traced_iff (hl : ClassLookup (run A calls) j b c name sig) :
    lookupLine (lookupHook b) c (methodText b name sig) ∈ log ((run A calls).take (j + 1)) ↔
      (methodText b name sig ≠ "" →
        FirstLookup (run A calls) j (lookupHook b) c (methodText b name sig)) ∧
      (methodText b name sig = "" →
        FreshLookup (run A calls) j (lookupHook b) c (methodText b name sig)) := by
  by_cases ht : methodText b name sig = ""
  · rw [mem_log_lookup]
    exact ⟨fun h => ⟨absurd ht, fun _ => h⟩, fun h => h.2 ht⟩
  · rw [mem_log_iff_first hl ht]
    exact ⟨fun h => ⟨fun _ => h, fun he => absurd he ht⟩, fun h => h.1 ht⟩

end Run

def twoConstructors : List (Call Handle) :=
  [.findClass "A", .findClass "B", .getMethodID 16 "<init>" "()V", .getMethodID 32 "<init>" "()V"]

theorem lookup_traced_first : FirstLookup (run .bump twoConstructors) 2 "hook_GetMethodID" "A"
    "<init>()V" := by
  have hl : ClassLookup (run .bump twoConstructors) 2 false "A" "<init>" "()V" :=
    ⟨by decide, 0, by decide, _, _, 16, rfl, rfl, rfl, rfl, rfl⟩
  exact ((lookup_traced_iff hl).mp (by decide)).1 (by decide)

/-- The trace names every method the target resolves on a class it found. -/
def TraceComplete : Prop :=
  ∀ A calls j b c name sig, ClassLookup (run A calls) j b c name sig →
    lookupLine (lookupHook b) c (methodText b name sig) ∈ log ((run A calls).take (j + 1))

/-- The second constructor of `twoConstructors` is not in the trace. -/
theorem not_traceComplete : ¬ TraceComplete := by
  intro h
  have hl : ClassLookup (run .bump twoConstructors) 3 false "B" "<init>" "()V" :=
    ⟨by decide, 1, by decide, _, _, 32, rfl, rfl, rfl, rfl, rfl⟩
  have hmem := h .bump twoConstructors 3 false "B" "<init>" "()V" hl
  revert hmem
  decide

end JniDegger.FakeEnv
