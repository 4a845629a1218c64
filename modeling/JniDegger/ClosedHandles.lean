import JniDegger.HandleTables

/-!
# Runs closed under their own object handles

A target that only passes back the objects it was given holds class handles and
the constant `1`, which `hook_ToReflectedMethod` and `hook_ExceptionOccurred`
return in the place of an object.  Proved here:

* `serve_object`: an object a hook returns is one it was passed, a named class
  handle, or one of the constants `0` and `1`;
* `object_origin`: so in a closed run every object is a named class handle or `1`;
* `closed_handles`: such a run stays out of the real-object branch of
  `hook_GetObjectClass` exactly when it never asks for the class of `1`;
* `not_closedUnderOwnHandles`: a run that does.
-/

namespace JniDegger.FakeEnv

open Runs InternTable

/-- Every object argument is a non-null object that an earlier call returned;
`FindClass("")` does not count. -/
def Closed (events : List (Event Env (Call Handle) (Reply Handle))) : Prop :=
  ∀ e j, events[j]? = some e → ∀ o ∈ e.input.objects, o ≠ 0 ∧
    ∃ d ∈ events.take j, d.input ≠ .findClass "" ∧ d.output.answer.object? = some o

instance (events : List (Event Env (Call Handle) (Reply Handle))) : Decidable (Closed events) :=
  decidable_of_iff
    (∀ p ∈ events.zipIdx, ∀ o ∈ p.1.input.objects, o ≠ 0 ∧
      ∃ d ∈ events.take p.2, d.input ≠ .findClass "" ∧ d.output.answer.object? = some o)
    (by simp only [Prod.forall, List.mem_zipIdx_iff_getElem?, Closed])

/-- The call enters the branch of `hook_GetObjectClass` that dereferences `oEnv`. -/
def EntersRealBranch (e : Event Env (Call Handle) (Reply Handle)) : Prop :=
  ∃ o, e.input = .getObjectClass o ∧ e.output.answer = .segv

theorem serve_getObjectClass (A : Allocator) (s : Env) (o : Handle) :
    (serve A s (.getObjectClass o)).value = if s.clsName o ≠ "" then .jclass o else .segv := by
  simp only [serve, hookGetObjectClass, Effect.answer]
  split <;> rfl

/-- **Where a returned object comes from.** -/
theorem serve_object {A : Allocator} {s : Env} (hs : WF A s) {c : Call Handle} {o : Handle}
    (hc : c ≠ .findClass "") (ho : (serve A s c).value.object? = some o) :
    o ∈ c.objects ∨ o = 0 ∨ o = 1 ∨ ∃ n, Binds (serve A s c).env.gClassNameMap o n := by
  cases c with
  | findClass n =>
    have hn : n ≠ "" := fun he => hc (by rw [he])
    obtain ⟨h, hv, hb⟩ := findClass_binds (A := A) hs hn
    rw [hv] at ho
    cases ho
    exact Or.inr (Or.inr (Or.inr ⟨n, hb⟩))
  | toReflectedMethod cls m b =>
    cases ho
    exact Or.inr (Or.inr (Or.inl rfl))
  | exceptionOccurred =>
    simp only [serve, hookExceptionOccurred, Effect.answer, Answer.object?, Option.some.injEq] at ho
    split at ho
    · exact Or.inr (Or.inr (Or.inl ho.symm))
    · exact Or.inr (Or.inl ho.symm)
  | getObjectClass obj =>
    rw [serve_getObjectClass] at ho
    split at ho
    · cases ho
      exact Or.inl List.mem_cons_self
    · cases ho
  | newGlobalRef obj =>
    cases ho
    exact Or.inl List.mem_cons_self
  | call slot obj m args =>
    cases slot <;> cases ho <;> exact Or.inl List.mem_cons_self
  | getMethodID cls n sig =>
    rw [serve_lookup A s (rfl : Call.lookup? (.getMethodID cls n sig) = some _)] at ho
    cases ho
  | getStaticMethodID cls n sig =>
    rw [serve_lookup A s (rfl : Call.lookup? (.getStaticMethodID cls n sig) = some _)] at ho
    cases ho
  | _ => cases ho

section Run

variable {A : Allocator} {calls : List (Call Handle)}

/-- **What a closed run hands out**: an object is null, `1`, or a class handle with
a name. -/
theorem object_origin (hrun : Closed (run A calls)) {j : Nat}
    {e : Event Env (Call Handle) (Reply Handle)} {o : Handle} (he : (run A calls)[j]? = some e)
    (hc : e.input ≠ .findClass "") (ho : e.output.answer.object? = some o) :
    o = 0 ∨ o = 1 ∨ ∃ n, Binds e.after.gClassNameMap o n := by
  induction j using Nat.strongRecOn generalizing e with
  | ind j ih =>
    obtain ⟨hout, hafter⟩ := run_serve (List.mem_of_getElem? he)
    rw [hout] at ho
    rcases serve_object (run_wf (List.mem_of_getElem? he)).1 hc ho with hmem | h0 | h1 | hb
    · -- the object was passed in, so an earlier call returned it
      obtain ⟨-, d, hdm, hdc, hdo⟩ := hrun e j he o hmem
      obtain ⟨i, hij, hd⟩ := Machine.mem_take_getElem? hdm
      rcases ih i hij hd hdc hdo with h0 | h1 | ⟨n, hn⟩
      · exact Or.inl h0
      · exact Or.inr (Or.inl h1)
      · have hgrow := run_grows_after (Nat.le_of_lt hij) hd he
        exact Or.inr (Or.inr ⟨n, hgrow.classes o n hn⟩)
    · exact Or.inl h0
    · exact Or.inr (Or.inl h1)
    · rw [hafter]
      exact Or.inr (Or.inr hb)

/-- An object passed in a closed run is `1` or reads as a class. -/
theorem object_argument (hrun : Closed (run A calls)) {j : Nat}
    {e : Event Env (Call Handle) (Reply Handle)} {o : Handle} (he : (run A calls)[j]? = some e)
    (ho : o ∈ e.input.objects) : o = 1 ∨ e.before.clsName o ≠ "" := by
  obtain ⟨hne, d, hdm, hdc, hdo⟩ := hrun e j he o ho
  obtain ⟨i, hij, hd⟩ := Machine.mem_take_getElem? hdm
  rcases object_origin hrun hd hdc hdo with h0 | h1 | ⟨n, hn⟩
  · exact absurd h0 hne
  · exact Or.inl h1
  · have hb := (Machine.pairwise_getElem? run_grows hij hd he).classes o n hn
    refine Or.inr ?_
    have hname : e.before.clsName o = n := hb.peek_eq
    rw [hname]
    exact hb.2

theorem clsName_of_unallocated {s : Env} (hs : WF A s) {v : Handle} (hv : ∀ i, A.addr i ≠ v) :
    s.clsName v = "" := by
  refine peek_eq_default_iff.mpr fun n hb => ?_
  obtain ⟨i, -, hi⟩ := hs.classes.owned v n hb
  exact hv i hi

/-- In a closed run `GetObjectClass` faults on `1` and on nothing else. -/
theorem entersRealBranch_iff (h1 : ∀ i, A.addr i ≠ 1) (hrun : Closed (run A calls))
    {e : Event Env (Call Handle) (Reply Handle)} (he : e ∈ run A calls) :
    EntersRealBranch e ↔ e.input = .getObjectClass 1 := by
  obtain ⟨hout, -⟩ := run_serve he
  have hw := (run_wf he).1
  constructor
  · rintro ⟨o, hin, hans⟩
    obtain ⟨j, hj⟩ := List.mem_iff_getElem?.mp he
    have ho : o ∈ e.input.objects := by
      rw [hin]
      exact List.mem_cons_self
    rcases object_argument hrun hj ho with rfl | hname
    · exact hin
    · rw [hout, hin, serve_getObjectClass, if_pos hname] at hans
      cases hans
  · intro hin
    refine ⟨1, hin, ?_⟩
    rw [hout, hin, serve_getObjectClass, clsName_of_unallocated hw h1]
    rfl

/-- **The fake environment and its own handles.**  A run that only passes back
objects it was given stays out of the real-object branch exactly when it never
asks for the class of the constant `1`. -/
theorem closed_handles (h1 : ∀ i, A.addr i ≠ 1) (hrun : Closed (run A calls)) :
    (∀ e ∈ run A calls, ¬ EntersRealBranch e) ↔
      ∀ e ∈ run A calls, e.input ≠ .getObjectClass 1 := by
  constructor
  · intro h e he hin
    exact h e he ((entersRealBranch_iff h1 hrun he).mpr hin)
  · intro h e he hreal
    exact h e he ((entersRealBranch_iff h1 hrun he).mp hreal)

end Run

def classOfObject : List (Call Handle) :=
  [.findClass "A", .call .newObject 16 0 [], .getObjectClass 16]

theorem closed_handles_class : (∀ e ∈ run .bump classOfObject, ¬ EntersRealBranch e) ↔
    ∀ e ∈ run .bump classOfObject, e.input ≠ .getObjectClass 1 :=
  closed_handles (Allocator.heap_addr_ne _ (by decide)) (by decide)

/-- The object of `ToReflectedMethod` is asked for its class. -/
theorem not_closedUnderOwnHandles : ¬ ∀ (A : Allocator) (calls : List (Call Handle)),
    (∀ i, A.addr i ≠ 1) → Closed (run A calls) → ∀ e ∈ run A calls, ¬ EntersRealBranch e := by
  intro h
  have h1 : ∀ i, Allocator.bump.addr i ≠ 1 := Allocator.heap_addr_ne _ (by decide)
  have hlast : (run .bump [.findClass "A", .toReflectedMethod 16 0 false,
      .getObjectClass 1])[2]? = some _ := rfl
  exact h .bump _ h1 (by decide) _ (List.mem_of_getElem? hlast) ⟨1, rfl, rfl⟩

end JniDegger.FakeEnv
