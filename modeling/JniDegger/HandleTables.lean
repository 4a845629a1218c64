import JniDegger.FakeEnv

/-!
# The two handle tables over whole runs

What one hook can do to the tables is said once (`serve_cases`): it keeps every
named entry as it is, or it stores one class name or one method text at the next
address of the allocator.  From that, for every run with any handle arguments:

* `run_wf`: both tables stay interned, over disjoint sets of allocated addresses;
* `run_grows`: a named entry stays to the end of the run;
* `class_handles`: the handles of non-empty class names are in bijection with the
  names;
* `method_handles`: the handles of method look-ups are in bijection with
  (static or not, name, signature).
-/

namespace JniDegger.FakeEnv

open Runs InternTable

/-! ## Allocated addresses -/

/-- The first `k` addresses `new string` returned. -/
def Allocator.used (A : Allocator) (k : Nat) : Set Handle := {h | ∃ i < k, A.addr i = h}

instance (A : Allocator) (k : Nat) (h : Handle) : Decidable (h ∈ A.used k) :=
  inferInstanceAs (Decidable (∃ i < k, A.addr i = h))

theorem Allocator.next_not_used (A : Allocator) (k : Nat) : A.addr k ∉ A.used k := by
  rintro ⟨i, hi, he⟩
  have := A.injective he
  omega

theorem Allocator.used_succ (A : Allocator) (k : Nat) :
    A.used (k + 1) = insert (A.addr k) (A.used k) := by
  ext h
  constructor
  · rintro ⟨i, hi, rfl⟩
    by_cases hk : i = k
    · exact Or.inl (hk ▸ rfl)
    · exact Or.inr ⟨i, by omega, rfl⟩
  · rintro (rfl | ⟨i, hi, rfl⟩)
    · exact ⟨k, by omega, rfl⟩
    · exact ⟨i, by omega, rfl⟩

theorem Allocator.used_mono (A : Allocator) {k l : Nat} (h : k ≤ l) : A.used k ⊆ A.used l := by
  rintro _ ⟨i, hi, rfl⟩
  exact ⟨i, by omega, rfl⟩

theorem Allocator.heap_addr_ne (σ : Equiv.Perm Nat) {v : Nat} (hv : v % 16 ≠ 0) (i : Nat) :
    (Allocator.heap σ).addr i ≠ v := by
  intro he
  have hmod : (Allocator.heap σ).addr i % 16 = 0 := Nat.mul_mod_right 16 _
  exact hv (he ▸ hmod)

theorem Allocator.ne_null_of_used {A : Allocator} {k : Nat} {h : Handle} (hu : h ∈ A.used k) :
    h ≠ 0 := by
  obtain ⟨i, -, rfl⟩ := hu
  exact A.ne_null i

/-! ## The invariant -/

/-- The tables hold interned names at allocated addresses, and no address is a
class handle and a method handle at once. -/
structure WF (A : Allocator) (s : Env) : Prop where
  functions : s.functions = true
  classes : Interned (A.used s.news) s.gClassNameMap
  methods : Interned (A.used s.news) s.gMethodIDMap
  disjoint : ∀ h n t, Binds s.gClassNameMap h n → ¬ Binds s.gMethodIDMap h t

/-- `s'` names what `s` names, and nothing was allocated. -/
structure SameNames (s s' : Env) : Prop where
  classes : ∀ h n, Binds s'.gClassNameMap h n ↔ Binds s.gClassNameMap h n
  methods : ∀ h t, Binds s'.gMethodIDMap h t ↔ Binds s.gMethodIDMap h t
  functions : s'.functions = s.functions
  news : s'.news = s.news

/-- Every named entry of `s` is one of `s'`. -/
structure Grows (s s' : Env) : Prop where
  classes : Extends s.gClassNameMap s'.gClassNameMap
  methods : Extends s.gMethodIDMap s'.gMethodIDMap
  news : s.news ≤ s'.news

theorem SameNames.refl (s : Env) : SameNames s s :=
  ⟨fun _ _ => Iff.rfl, fun _ _ => Iff.rfl, rfl, rfl⟩

theorem SameNames.trans {s t u : Env} (h : SameNames s t) (h' : SameNames t u) : SameNames s u where
  classes k n := (h'.classes k n).trans (h.classes k n)
  methods k n := (h'.methods k n).trans (h.methods k n)
  functions := h'.functions.trans h.functions
  news := h'.news.trans h.news

theorem SameNames.grows {s s' : Env} (h : SameNames s s') : Grows s s' where
  classes k n := (h.classes k n).mpr
  methods k t := (h.methods k t).mpr
  news := h.news.ge

theorem Grows.refl (s : Env) : Grows s s := (SameNames.refl s).grows

theorem Grows.trans {s t u : Env} (h : Grows s t) (h' : Grows t u) : Grows s u where
  classes := h.classes.trans h'.classes
  methods := h.methods.trans h'.methods
  news := h.news.trans h'.news

theorem SameNames.wf {A : Allocator} {s s' : Env} (h : SameNames s s') (hs : WF A s) :
    WF A s' where
  functions := h.functions.trans hs.functions
  classes := by
    rw [h.news]
    exact hs.classes.congr h.classes
  methods := by
    rw [h.news]
    exact hs.methods.congr h.methods
  disjoint k n t hc hm := hs.disjoint k n t ((h.classes k n).mp hc) ((h.methods k t).mp hm)

theorem sameNames_touchClass (s : Env) (h : Handle) : SameNames s (s.touchClass h) :=
  ⟨fun _ _ => binds_touch, fun _ _ => Iff.rfl, rfl, rfl⟩

theorem sameNames_touchMethod (s : Env) (h : Handle) : SameNames s (s.touchMethod h) :=
  ⟨fun _ _ => Iff.rfl, fun _ _ => binds_touch, rfl, rfl⟩

theorem sameNames_setException (s : Env) (b : Bool) :
    SameNames s { s with hasException := b } :=
  ⟨fun _ _ => Iff.rfl, fun _ _ => Iff.rfl, rfl, rfl⟩

/-! ## Storing a name -/

section Store

variable {A : Allocator} {s : Env}

theorem binds_newClass (hs : WF A s) {v : String} {h : Handle} {n : String} :
    Binds (s.newClass A v).gClassNameMap h n ↔
      Binds s.gClassNameMap h n ∨ h = A.addr s.news ∧ n = v ∧ v ≠ "" :=
  binds_insert (hs.classes.unbound (A.next_not_used _))

theorem binds_newMethod (hs : WF A s) {v : String} {h : Handle} {t : String} :
    Binds (s.newMethod A v).gMethodIDMap h t ↔
      Binds s.gMethodIDMap h t ∨ h = A.addr s.news ∧ t = v ∧ v ≠ "" :=
  binds_insert (hs.methods.unbound (A.next_not_used _))

theorem grows_newClass (hs : WF A s) (v : String) : Grows s (s.newClass A v) where
  classes := extends_insert (hs.classes.unbound (A.next_not_used _)) v
  methods := Extends.refl _
  news := Nat.le_succ _

theorem grows_newMethod (hs : WF A s) (v : String) : Grows s (s.newMethod A v) where
  classes := Extends.refl _
  methods := extends_insert (hs.methods.unbound (A.next_not_used _)) v
  news := Nat.le_succ _

theorem wf_newClass (hs : WF A s) {v : String} (hv : search s.gClassNameMap v = none) :
    WF A (s.newClass A v) where
  functions := hs.functions
  classes := by
    show Interned (A.used (s.news + 1)) _
    rw [A.used_succ]
    exact hs.classes.insert (A.next_not_used _) hv
  methods := hs.methods.mono (A.used_mono (Nat.le_succ _))
  disjoint h n t hc hm := by
    rcases (binds_newClass hs).mp hc with hc | ⟨rfl, -, -⟩
    · exact hs.disjoint h n t hc hm
    · exact hs.methods.unbound (A.next_not_used _) t hm

theorem wf_newMethod (hs : WF A s) {v : String} (hv : search s.gMethodIDMap v = none) :
    WF A (s.newMethod A v) where
  functions := hs.functions
  classes := hs.classes.mono (A.used_mono (Nat.le_succ _))
  methods := by
    show Interned (A.used (s.news + 1)) _
    rw [A.used_succ]
    exact hs.methods.insert (A.next_not_used _) hv
  disjoint h n t hc hm := by
    rcases (binds_newMethod hs).mp hm with hm | ⟨rfl, -, -⟩
    · exact hs.disjoint h n t hc hm
    · exact hs.classes.unbound (A.next_not_used _) n hc

end Store

/-! ## What one call can do to the tables -/

/-- The two method look-ups: the class handle, the hook's name and the text that
is looked up. -/
def Call.lookup? {η : Type} : Call η → Option (η × String × String)
  | .getMethodID c n sig => some (c, "hook_GetMethodID", n ++ sig)
  | .getStaticMethodID c n sig => some (c, "hook_GetStaticMethodID", "static " ++ n ++ sig)
  | _ => none

theorem serve_lookup (A : Allocator) (s : Env) {c : Call Handle} {cls : Handle} {fn t : String}
    (hc : c.lookup? = some (cls, fn, t)) :
    serve A s c = (methodLookup A (s.touchClass cls) fn (s.clsName cls) t).answer .jmethodID := by
  cases c <;> cases hc <;> rfl

/-- Every call slot reads the method table, and all but the three served by
`hook_CallObjectMethodA` read the class table first. -/
theorem callSlot_env (slot : CallSlot) (s : Env) (obj mid : Handle) (args : List JValue) :
    (slot.serve s obj mid args).env = (s.touchClass obj).touchMethod mid ∨
      (slot.serve s obj mid args).env = s.touchMethod mid := by
  cases slot <;> first | exact Or.inl rfl | exact Or.inr rfl

theorem sameNames_callSlot (slot : CallSlot) (s : Env) (obj mid : Handle) (args : List JValue) :
    SameNames s (slot.serve s obj mid args).env := by
  rcases callSlot_env slot s obj mid args with h | h
  · rw [h]
    exact (sameNames_touchClass s obj).trans (sameNames_touchMethod _ mid)
  · rw [h]
    exact sameNames_touchMethod s mid

/-- **What a call can do to the tables.**  It keeps the named entries, or it
stores a class name that the search missed, or a method text that it missed. -/
theorem serve_cases (A : Allocator) (s : Env) (c : Call Handle) :
    SameNames s (serve A s c).env ∨
      (∃ n, c = .findClass n ∧ search s.gClassNameMap n = none ∧
        (serve A s c).env = s.newClass A n) ∨
      ∃ cls fn t, c.lookup? = some (cls, fn, t) ∧ search s.gMethodIDMap t = none ∧
        (serve A s c).env = (s.touchClass cls).newMethod A t := by
  have hlookup : ∀ cls fn t, c.lookup? = some (cls, fn, t) →
      SameNames s (serve A s c).env ∨ search s.gMethodIDMap t = none ∧
        (serve A s c).env = (s.touchClass cls).newMethod A t := by
    intro cls fn t hc
    rw [serve_lookup A s hc]
    cases hs : search s.gMethodIDMap t with
    | none => exact Or.inr ⟨rfl, by simp [methodLookup, Env.touchClass, Effect.answer, hs]⟩
    | some k =>
      refine Or.inl ?_
      simpa [methodLookup, Env.touchClass, Effect.answer, hs] using sameNames_touchClass s cls
  cases c with
  | findClass n =>
    cases hs : search s.gClassNameMap n with
    | none => exact Or.inr (Or.inl ⟨n, rfl, hs, by simp [serve, hookFindClass, Effect.answer, hs]⟩)
    | some k =>
      refine Or.inl ?_
      simpa [serve, hookFindClass, Effect.answer, hs] using SameNames.refl s
  | getMethodID cls n sig =>
    rcases hlookup _ _ _ rfl with h | h
    · exact Or.inl h
    · exact Or.inr (Or.inr ⟨_, _, _, rfl, h⟩)
  | getStaticMethodID cls n sig =>
    rcases hlookup _ _ _ rfl with h | h
    · exact Or.inl h
    · exact Or.inr (Or.inr ⟨_, _, _, rfl, h⟩)
  | call slot obj mid args => exact Or.inl (sameNames_callSlot slot s obj mid args)
  | getObjectClass obj =>
    refine Or.inl ?_
    simp only [serve, hookGetObjectClass, Effect.answer]
    split <;> exact sameNames_touchClass s obj
  | getStringUTFChars str =>
    refine Or.inl ?_
    simp only [serve, hookGetStringUTFChars, Effect.answer]
    split <;> exact SameNames.refl s
  | registerNatives cls _ _ => exact Or.inl (sameNames_touchClass s cls)
  | deleteLocalRef obj => exact Or.inl (sameNames_touchClass s obj)
  | deleteGlobalRef obj => exact Or.inl (sameNames_touchClass s obj)
  | newGlobalRef obj => exact Or.inl (sameNames_touchClass s obj)
  | exceptionClear => exact Or.inl (sameNames_setException s false)
  | throw _ => exact Or.inl (sameNames_setException s true)
  | _ => exact Or.inl (SameNames.refl s)

theorem serve_wf {A : Allocator} {s : Env} (hs : WF A s) (c : Call Handle) :
    WF A (serve A s c).env := by
  rcases serve_cases A s c with h | ⟨n, -, hn, he⟩ | ⟨cls, fn, t, -, ht, he⟩
  · exact h.wf hs
  · rw [he]
    exact wf_newClass hs hn
  · rw [he]
    exact wf_newMethod ((sameNames_touchClass s cls).wf hs) ht

theorem serve_grows {A : Allocator} {s : Env} (hs : WF A s) (c : Call Handle) :
    Grows s (serve A s c).env := by
  rcases serve_cases A s c with h | ⟨n, -, -, he⟩ | ⟨cls, fn, t, -, -, he⟩
  · exact h.grows
  · rw [he]
    exact grows_newClass hs n
  · rw [he]
    have h := sameNames_touchClass s cls
    exact h.grows.trans (grows_newMethod (h.wf hs) t)

/-- A class name bound after a call was bound before it, or was asked for. -/
theorem serve_binds_class {A : Allocator} {s : Env} (hs : WF A s) {c : Call Handle} {h : Handle}
    {n : String} (hb : Binds (serve A s c).env.gClassNameMap h n) :
    Binds s.gClassNameMap h n ∨ c = .findClass n := by
  rcases serve_cases A s c with hn | ⟨n', rfl, -, he⟩ | ⟨cls, fn, t, -, -, he⟩
  · exact Or.inl ((hn.classes h n).mp hb)
  · rw [he] at hb
    rcases (binds_newClass hs).mp hb with hb | ⟨-, rfl, -⟩
    · exact Or.inl hb
    · exact Or.inr rfl
  · rw [he] at hb
    exact Or.inl (((sameNames_touchClass s cls).classes h n).mp hb)

/-- A method text bound after a call was bound before it, or was looked up. -/
theorem serve_binds_method {A : Allocator} {s : Env} (hs : WF A s) {c : Call Handle} {h : Handle}
    {t : String} (hb : Binds (serve A s c).env.gMethodIDMap h t) :
    Binds s.gMethodIDMap h t ∨ ∃ cls fn, c.lookup? = some (cls, fn, t) := by
  rcases serve_cases A s c with hn | ⟨n', -, -, he⟩ | ⟨cls, fn, t', hc, -, he⟩
  · exact Or.inl ((hn.methods h t).mp hb)
  · rw [he] at hb
    exact Or.inl hb
  · rw [he] at hb
    rcases (binds_newMethod ((sameNames_touchClass s cls).wf hs)).mp hb with hb | ⟨-, rfl, -⟩
    · exact Or.inl hb
    · exact Or.inr ⟨cls, fn, hc⟩

/-! ## Runs -/

theorem step_eq {A : Allocator} {s : Env} (hs : s.functions = true) (c : Call Handle) :
    step A s c = (⟨(serve A s c).lines, (serve A s c).value⟩, (serve A s c).env) := by
  rw [step, if_pos hs]

theorem wf_initial (A : Allocator) : WF A (initial Env.start) where
  functions := rfl
  classes := interned_empty _
  methods := interned_empty _
  disjoint _ _ _ h := absurd h (not_binds_empty _ _)

theorem machine_wf {A : Allocator} (s : Env) (c : Call Handle) (hs : WF A s) :
    WF A ((machine A).step s c).2 := by
  show WF A (step A s c).2
  rw [step_eq hs.functions]
  exact serve_wf hs c

theorem machine_grows {A : Allocator} (s : Env) (c : Call Handle) (hs : WF A s) :
    Grows s ((machine A).step s c).2 := by
  show Grows s (step A s c).2
  rw [step_eq hs.functions]
  exact serve_grows hs c

section RunFacts

variable {A : Allocator} {calls : List (Call Handle)}

/-- **The tables stay well formed**, whatever handles the target passes. -/
theorem run_wf {e : Event Env (Call Handle) (Reply Handle)} (he : e ∈ run A calls) :
    WF A e.before ∧ WF A e.after :=
  Machine.trace_invariant (WF A) machine_wf (wf_initial A) calls e he

theorem run_serve {e : Event Env (Call Handle) (Reply Handle)} (he : e ∈ run A calls) :
    e.output = ⟨(serve A e.before e.input).lines, (serve A e.before e.input).value⟩ ∧
      e.after = (serve A e.before e.input).env := by
  have h : step A e.before e.input = (e.output, e.after) := Machine.step_of_mem_trace he
  rw [step_eq (run_wf he).1.functions] at h
  exact ⟨(congrArg Prod.fst h).symm, (congrArg Prod.snd h).symm⟩

/-- **Named entries persist** from one moment of a run to any later one. -/
theorem run_grows : (run A calls).Pairwise (fun e f => Grows e.after f.before) :=
  Machine.trace_grows (WF A) Grows Grows.refl (fun _ _ _ => Grows.trans) machine_wf
    machine_grows (wf_initial A) calls

theorem run_grows_after {i j : Nat} {e f : Event Env (Call Handle) (Reply Handle)}
    (hij : i ≤ j) (hi : (run A calls)[i]? = some e) (hj : (run A calls)[j]? = some f) :
    Grows e.after f.after := by
  by_cases h : i = j
  · subst h
    rw [hi] at hj
    exact Option.some.inj hj ▸ Grows.refl _
  · have hlt : i < j := by omega
    have hf := List.mem_of_getElem? hj
    refine (Machine.pairwise_getElem? run_grows hlt hi hj).trans ?_
    rw [(run_serve hf).2]
    exact serve_grows (run_wf hf).1 f.input

end RunFacts

/-! ## Class handles -/

theorem findClass_binds {A : Allocator} {s : Env} (hs : WF A s) {n : String} (hn : n ≠ "") :
    ∃ h, (serve A s (.findClass n)).value = .jclass h ∧
      Binds (serve A s (.findClass n)).env.gClassNameMap h n := by
  simp only [serve, hookFindClass, Effect.answer]
  cases hc : search s.gClassNameMap n with
  | some k => exact ⟨k, rfl, (search_eq_some_iff hs.classes.one hn).mp hc⟩
  | none => exact ⟨A.addr s.news, rfl, (binds_newClass hs).mpr (Or.inr ⟨rfl, rfl, hn⟩)⟩

theorem run_findClass {A : Allocator} {calls : List (Call Handle)} {i : Nat}
    {e : Event Env (Call Handle) (Reply Handle)} {n : String} (hn : n ≠ "")
    (hi : (run A calls)[i]? = some e) (he : e.input = .findClass n) :
    ∃ h, e.output.answer = .jclass h ∧ Binds e.after.gClassNameMap h n := by
  have hm := List.mem_of_getElem? hi
  obtain ⟨h, hv, hb⟩ := findClass_binds (run_wf hm).1 hn
  obtain ⟨ho, ha⟩ := run_serve hm
  rw [he] at ho ha
  exact ⟨h, by rw [ho, hv], by rw [ha]; exact hb⟩

/-- **Class-handle table.**  At any two moments of a run the handles of two
non-empty class names are non-null, equal exactly when the names are, and each
stays mapped to its name to the end of the run. -/
theorem class_handles (A : Allocator) (calls : List (Call Handle)) {i j : Nat}
    {e f : Event Env (Call Handle) (Reply Handle)} {n m : String} (hn : n ≠ "") (hm : m ≠ "")
    (hi : (run A calls)[i]? = some e) (hj : (run A calls)[j]? = some f)
    (he : e.input = .findClass n) (hf : f.input = .findClass m) :
    ∃ h k, e.output.answer = .jclass h ∧ f.output.answer = .jclass k ∧
      (h = k ↔ n = m) ∧ h ≠ 0 ∧ k ≠ 0 ∧
      ∀ l g, i ≤ l → (run A calls)[l]? = some g → g.after.gClassNameMap[h]? = some n := by
  obtain ⟨h, hh, bh⟩ := run_findClass hn hi he
  obtain ⟨k, hk, bk⟩ := run_findClass hm hj hf
  have hwe := (run_wf (List.mem_of_getElem? hi)).2
  have hwf := (run_wf (List.mem_of_getElem? hj)).2
  refine ⟨h, k, hh, hk, ?_, ?_, ?_, ?_⟩
  · have key : ∃ s, WF A s ∧ Binds s.gClassNameMap h n ∧ Binds s.gClassNameMap k m := by
      rcases Nat.le_total i j with hij | hij
      · exact ⟨f.after, hwf, (run_grows_after hij hi hj).classes h n bh, bk⟩
      · exact ⟨e.after, hwe, bh, (run_grows_after hij hj hi).classes k m bk⟩
    obtain ⟨s, hs, b₁, b₂⟩ := key
    constructor
    · rintro rfl
      exact b₁.unique b₂
    · rintro rfl
      exact hs.classes.one h k n b₁ b₂
  · exact Allocator.ne_null_of_used (hwe.classes.owned h n bh)
  · exact Allocator.ne_null_of_used (hwf.classes.owned k m bk)
  · intro l g hl hg
    exact ((run_grows_after hl hi hg).classes h n bh).1

/-- The address of the second class is passed as a foreign handle before it is
allocated. -/
theorem class_handles_foreign : ∃ e f h k,
    (run .bump [.findClass "A", .newGlobalRef 32, .findClass "B"])[0]? = some e ∧
    (run .bump [.findClass "A", .newGlobalRef 32, .findClass "B"])[2]? = some f ∧
    e.output.answer = .jclass h ∧ f.output.answer = .jclass k ∧
    (h = k ↔ "A" = "B") ∧ h ≠ 0 ∧ k ≠ 0 ∧
    ∀ l g, 0 ≤ l →
      (run .bump [.findClass "A", .newGlobalRef 32, .findClass "B"])[l]? = some g →
        g.after.gClassNameMap[h]? = some "A" := by
  obtain ⟨h, k, hhk⟩ := class_handles .bump
    [.findClass "A", .newGlobalRef 32, .findClass "B"] (i := 0) (j := 2) (n := "A") (m := "B")
    (by decide) (by decide) rfl rfl rfl rfl
  exact ⟨_, _, h, k, rfl, rfl, hhk⟩

/-! ## Method handles -/

/-- A look-up through the instance or the static slot. -/
def Call.lookupMethod {η : Type} (isStatic : Bool) (cls : η) (name sig : String) : Call η :=
  if isStatic then .getStaticMethodID cls name sig else .getMethodID cls name sig

/-- The text a method is stored under and the call hooks print. -/
def methodText (isStatic : Bool) (name sig : String) : String :=
  if isStatic then "static " ++ name ++ sig else name ++ sig

/-- `__FUNCTION__` in the two look-up hooks. -/
def lookupHook (isStatic : Bool) : String :=
  if isStatic then "hook_GetStaticMethodID" else "hook_GetMethodID"

theorem lookup?_lookupMethod {η : Type} (isStatic : Bool) (cls : η) (name sig : String) :
    (Call.lookupMethod isStatic cls name sig).lookup? =
      some (cls, lookupHook isStatic, methodText isStatic name sig) := by
  cases isStatic <;> rfl

/-- Two texts that agree up to a separator neither front contains have equal
fronts and equal backs. -/
theorem append_inj_of_separator {α : Type} [DecidableEq α] {c : α} {p p' s s' : List α}
    (hp : c ∉ p) (hp' : c ∉ p') (hs : s.head? = some c) (hs' : s'.head? = some c)
    (h : p ++ s = p' ++ s') : p = p' ∧ s = s' := by
  have front : ∀ q t : List α, c ∉ q → t.head? = some c →
      (q ++ t).takeWhile (fun x => x ≠ c) = q := by
    intro q t hq ht
    obtain ⟨r, rfl⟩ : ∃ r, t = c :: r := by
      cases t with
      | nil => cases ht
      | cons x r => exact ⟨r, by rw [Option.some.inj ht]⟩
    rw [List.takeWhile_append_of_pos]
    · simp
    · intro x hx
      have hne : x ≠ c := fun e => hq (e ▸ hx)
      simpa using hne
  have hpp : p = p' := by rw [← front p s hp hs, ← front p' s' hp' hs', h]
  subst hpp
  exact ⟨rfl, List.append_cancel_left h⟩

/-- **The stored text determines the look-up**, for names without `(` and blank
and signatures that begin with `(`. -/
theorem methodText_inj {b b' : Bool} {n n' sig sig' : String}
    (hn : '(' ∉ n.toList ∧ ' ' ∉ n.toList) (hn' : '(' ∉ n'.toList ∧ ' ' ∉ n'.toList)
    (hs : sig.toList.head? = some '(') (hs' : sig'.toList.head? = some '(') :
    methodText b n sig = methodText b' n' sig' ↔ b = b' ∧ n = n' ∧ sig = sig' := by
  have front : ∀ (b : Bool) (n : String), '(' ∉ n.toList →
      '(' ∉ ((if b then "static " else "") ++ n).toList := by
    intro b n hn
    cases b <;> simp [String.toList_append, hn]
  have split : ∀ (b : Bool) (n sig : String), (methodText b n sig).toList =
      ((if b then "static " else "") ++ n).toList ++ sig.toList := by
    intro b n sig
    cases b <;> simp [methodText, String.toList_append]
  have static : ∀ (n m : String), ' ' ∉ m.toList → ("static " ++ n).toList ≠ ("" ++ m).toList := by
    intro n m hm he
    have hb : ' ' ∈ ("static " ++ n).toList := by simp [String.toList_append]
    rw [he] at hb
    exact hm (by simpa using hb)
  constructor
  · intro h
    have hl := congrArg String.toList h
    rw [split, split] at hl
    obtain ⟨hp, hq⟩ := append_inj_of_separator (front b n hn.1) (front b' n' hn'.1) hs hs' hl
    refine ⟨?_, ?_, String.ext hq⟩
    · cases b <;> cases b'
      · rfl
      · exact absurd hp.symm (static n' n hn.2)
      · exact absurd hp (static n n' hn'.2)
      · rfl
    · cases b <;> cases b'
      · exact String.ext (by simpa using hp)
      · exact absurd hp.symm (static n' n hn.2)
      · exact absurd hp (static n n' hn'.2)
      · exact String.ext (by simpa [String.toList_append] using hp)
  · rintro ⟨rfl, rfl, rfl⟩
    rfl

theorem methodText_ne_empty {b : Bool} {n sig : String} (hs : sig.toList.head? = some '(') :
    methodText b n sig ≠ "" := by
  intro h
  have hl := congrArg String.toList h
  cases b <;> simp [methodText, String.toList_append] at hl
  · simp [hl.2] at hs

theorem lookup_binds {A : Allocator} {s : Env} (hs : WF A s) {c : Call Handle} {cls : Handle}
    {fn t : String} (hc : c.lookup? = some (cls, fn, t)) (ht : t ≠ "") :
    ∃ h, (serve A s c).value = .jmethodID h ∧ Binds (serve A s c).env.gMethodIDMap h t := by
  rw [serve_lookup A s hc]
  have hw := (sameNames_touchClass s cls).wf hs
  simp only [methodLookup, Effect.answer]
  cases hm : search (s.touchClass cls).gMethodIDMap t with
  | some k => exact ⟨k, rfl, (search_eq_some_iff hw.methods.one ht).mp hm⟩
  | none => exact ⟨_, rfl, (binds_newMethod hw).mpr (Or.inr ⟨rfl, rfl, ht⟩)⟩

theorem run_lookup {A : Allocator} {calls : List (Call Handle)} {i : Nat}
    {e : Event Env (Call Handle) (Reply Handle)} {cls : Handle} {fn t : String}
    (hi : (run A calls)[i]? = some e) (he : e.input.lookup? = some (cls, fn, t)) (ht : t ≠ "") :
    ∃ h, e.output.answer = .jmethodID h ∧ Binds e.after.gMethodIDMap h t := by
  have hm := List.mem_of_getElem? hi
  obtain ⟨h, hv, hb⟩ := lookup_binds (run_wf hm).1 he ht
  obtain ⟨ho, ha⟩ := run_serve hm
  exact ⟨h, by rw [ho, hv], by rw [ha]; exact hb⟩

/-- **Method-handle table.**  The handles of two look-ups are non-null, equal
exactly when the look-ups agree on static or not, name and signature, and each
stays mapped to the text the call hooks print. -/
theorem method_handles (A : Allocator) (calls : List (Call Handle)) {i j : Nat}
    {e f : Event Env (Call Handle) (Reply Handle)} {b b' : Bool} {c c' : Handle}
    {n n' sig sig' : String}
    (hn : '(' ∉ n.toList ∧ ' ' ∉ n.toList) (hn' : '(' ∉ n'.toList ∧ ' ' ∉ n'.toList)
    (hs : sig.toList.head? = some '(') (hs' : sig'.toList.head? = some '(')
    (hi : (run A calls)[i]? = some e) (hj : (run A calls)[j]? = some f)
    (he : e.input = .lookupMethod b c n sig) (hf : f.input = .lookupMethod b' c' n' sig') :
    ∃ h k, e.output.answer = .jmethodID h ∧ f.output.answer = .jmethodID k ∧
      (h = k ↔ b = b' ∧ n = n' ∧ sig = sig') ∧ h ≠ 0 ∧ k ≠ 0 ∧
      ∀ l g, i ≤ l → (run A calls)[l]? = some g →
        g.after.gMethodIDMap[h]? = some (methodText b n sig) := by
  have hc := lookup?_lookupMethod b c n sig
  have hc' := lookup?_lookupMethod b' c' n' sig'
  obtain ⟨h, hh, bh⟩ := run_lookup hi (he ▸ hc) (methodText_ne_empty hs)
  obtain ⟨k, hk, bk⟩ := run_lookup hj (hf ▸ hc') (methodText_ne_empty hs')
  have hwe := (run_wf (List.mem_of_getElem? hi)).2
  have hwf := (run_wf (List.mem_of_getElem? hj)).2
  refine ⟨h, k, hh, hk, ?_, ?_, ?_, ?_⟩
  · rw [← methodText_inj hn hn' hs hs']
    have key : ∃ s, WF A s ∧ Binds s.gMethodIDMap h (methodText b n sig) ∧
        Binds s.gMethodIDMap k (methodText b' n' sig') := by
      rcases Nat.le_total i j with hij | hij
      · exact ⟨f.after, hwf, (run_grows_after hij hi hj).methods h _ bh, bk⟩
      · exact ⟨e.after, hwe, bh, (run_grows_after hij hj hi).methods k _ bk⟩
    obtain ⟨s, hw, b₁, b₂⟩ := key
    constructor
    · rintro rfl
      exact b₁.unique b₂
    · intro ht
      exact hw.methods.one h k _ b₁ (ht ▸ b₂)
  · exact Allocator.ne_null_of_used (hwe.methods.owned h _ bh)
  · exact Allocator.ne_null_of_used (hwf.methods.owned k _ bk)
  · intro l g hl hg
    exact ((run_grows_after hl hi hg).methods h _ bh).1

/-- An instance and a static look-up of one name and signature, on foreign class
handles, with a call on a handle that is allocated only later. -/
theorem method_handles_foreign : ∃ e f h k,
    (run .bump [.getMethodID 7 "run" "()V", .call .newObject 7 32 [],
      .getStaticMethodID 0 "run" "()V"])[0]? = some e ∧
    (run .bump [.getMethodID 7 "run" "()V", .call .newObject 7 32 [],
      .getStaticMethodID 0 "run" "()V"])[2]? = some f ∧
    e.output.answer = .jmethodID h ∧ f.output.answer = .jmethodID k ∧
    (h = k ↔ false = true ∧ "run" = "run" ∧ "()V" = "()V") ∧ h ≠ 0 ∧ k ≠ 0 ∧
    ∀ l g, 0 ≤ l →
      (run .bump [.getMethodID 7 "run" "()V", .call .newObject 7 32 [],
        .getStaticMethodID 0 "run" "()V"])[l]? = some g →
        g.after.gMethodIDMap[h]? = some (methodText false "run" "()V") := by
  obtain ⟨h, k, hhk⟩ := method_handles .bump
    [.getMethodID 7 "run" "()V", .call .newObject 7 32 [], .getStaticMethodID 0 "run" "()V"]
    (i := 0) (j := 2) (b := false) (c := 7) (n := "run")
    (by decide) (by decide) (by decide) (by decide) rfl rfl rfl
    (f := _) (show _ = Call.lookupMethod true 0 "run" "()V" from rfl)
  exact ⟨_, _, h, k, rfl, rfl, hhk⟩

end JniDegger.FakeEnv
