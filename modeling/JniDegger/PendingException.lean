import JniDegger.Sessions

/-!
# The pending exception

`Throw` and `ExceptionClear` set a flag, and two hooks report it: `ExceptionOccurred`
returns the flag itself, `ExceptionCheck` a constant.  Proved here, for every run:

* `afterAll_pending_iff`: the flag of the registry is set exactly when a `Throw` was not
  cleared;
* `occurs_iff`, `not_checks`: what the two hooks answer;
* `serve_keeps_answers`: no other hook changes either answer;
* `exceptionProtocol_iff`: the two hooks agree exactly while nothing is pending;
* `not_exceptionProtocol`: they disagree after a `Throw`.
-/

namespace JniDegger.FakeEnv

open Runs InternTable

/-- A `Throw` with no `ExceptionClear` after it. -/
def Pending {η : Type} (calls : List (Call η)) : Prop :=
  ∃ (i : Nat) (exc : η), calls[i]? = some (.throw exc) ∧
    ∀ k, i < k → calls[k]? ≠ some .exceptionClear

/-- `ExceptionCheck` would answer true. -/
def Checks (A : Allocator) (s : Env) : Prop :=
  (step A s .exceptionCheck).1.answer = .jboolean true

/-- `ExceptionOccurred` would answer a throwable. -/
def Occurs (A : Allocator) (s : Env) : Prop :=
  ∃ h, (step A s .exceptionOccurred).1.answer = .jthrowable h ∧ h ≠ 0

/-- What the two queries promise at the end of a run, for the calls that were served. -/
structure ExceptionProtocol (A : Allocator) (calls : List (Call Handle)) : Prop where
  agree : Checks A ((machine A).final (initial Env.start) calls) ↔
    Occurs A ((machine A).final (initial Env.start) calls)
  check : Checks A ((machine A).final (initial Env.start) calls) ↔
    Pending ((run A calls).map Event.input)
  occurred : Occurs A ((machine A).final (initial Env.start) calls) ↔
    Pending ((run A calls).map Event.input)
  frame : ∀ c, (∀ exc, c ≠ .throw exc) → c ≠ .exceptionClear →
    (Checks A (step A ((machine A).final (initial Env.start) calls) c).2 ↔
        Checks A ((machine A).final (initial Env.start) calls)) ∧
      (Occurs A (step A ((machine A).final (initial Env.start) calls) c).2 ↔
        Occurs A ((machine A).final (initial Env.start) calls))

/-! ## The flag and the history -/

section History

variable {η : Type}

theorem pending_iff_latched (calls : List (Call η)) :
    Pending calls ↔ Latched (fun c => ∃ exc, c = .throw exc) (· = .exceptionClear) calls := by
  constructor
  · rintro ⟨i, exc, hi, hclear⟩
    exact ⟨i, _, hi, ⟨exc, rfl⟩, fun k b hik hk hb => hclear k hik (hb ▸ hk)⟩
  · rintro ⟨i, -, hi, ⟨exc, rfl⟩, hclear⟩
    exact ⟨i, exc, hi, fun k hik hk => hclear k _ hik hk rfl⟩

/-- **The flag follows the history.** -/
theorem afterAll_pending_iff (calls : List (Call η)) :
    (Registry.start.afterAll calls).pending = true ↔ Pending calls := by
  rw [pending_iff_latched, Registry.afterAll]
  refine foldl_latched (fun _ => True) (fun r : Registry => r.pending = true) (fun _ _ _ => trivial)
    ?_ ?_ ?_ trivial (by simp [Registry.start]) calls
  · rintro r c - ⟨exc, rfl⟩
    rfl
  · rintro r c - rfl
    simp [Registry.after, Call.pendingAfter]
  · rintro r c - hthrow hclear
    cases c <;> first
      | rfl
      | exact absurd ⟨_, rfl⟩ hthrow
      | exact absurd rfl hclear

end History

/-! ## The two queries -/

section Queries

variable {A : Allocator} {s : Env}

theorem occurs_iff (hs : s.functions = true) : Occurs A s ↔ s.hasException = true := by
  rw [Occurs, step_eq hs]
  cases hp : s.hasException <;> simp [serve, hookExceptionOccurred, Effect.answer, hp]

/-- `hook_ExceptionCheck` answers false in every state. -/
theorem not_checks (hs : s.functions = true) : ¬ Checks A s := by
  rw [Checks, step_eq hs]
  intro h
  cases h

/-- **No other hook changes either answer.** -/
theorem serve_keeps_answers (hs : WF A s) {c : Call Handle} (hthrow : ∀ exc, c ≠ .throw exc)
    (hclear : c ≠ .exceptionClear) :
    (Checks A (step A s c).2 ↔ Checks A s) ∧ (Occurs A (step A s c).2 ↔ Occurs A s) := by
  have hflag : (serve A s c).env.hasException = s.hasException := by
    rw [serve_hasException]
    cases c <;> first | rfl | exact absurd rfl (hthrow _) | exact absurd rfl hclear
  have hs' := serve_wf hs c
  rw [step_eq hs.functions, occurs_iff hs'.functions, occurs_iff hs.functions, hflag]
  exact ⟨iff_of_false (not_checks hs'.functions) (not_checks hs.functions), Iff.rfl⟩

end Queries

/-- **When the pending-exception protocol holds.**  At any point of any run, the two
queries promise what they should exactly when no `Throw` is left uncleared. -/
theorem exceptionProtocol_iff (A : Allocator) (calls : List (Call Handle)) :
    ExceptionProtocol A calls ↔ ¬ Pending ((run A calls).map Event.input) := by
  have hr : Represents A ((machine A).final (initial Env.start) calls)
      (Registry.start.afterAll ((run A calls).map Event.input)) :=
    run_represents (represents_start A) calls
  have hno : ¬ Checks A ((machine A).final (initial Env.start) calls) :=
    not_checks hr.wf.functions
  have hocc : Occurs A ((machine A).final (initial Env.start) calls) ↔
      Pending ((run A calls).map Event.input) := by
    rw [occurs_iff hr.wf.functions, hr.pending, afterAll_pending_iff]
  constructor
  · exact fun h hp => hno (h.check.mpr hp)
  · intro hnone
    exact
      { agree := iff_of_false hno fun ho => hnone (hocc.mp ho)
        check := iff_of_false hno hnone
        occurred := hocc
        frame := fun c hthrow hclear => serve_keeps_answers hr.wf hthrow hclear }

/-- After a `Throw` only `ExceptionOccurred` reports it. -/
theorem not_exceptionProtocol : ¬ ∀ A calls, ExceptionProtocol A calls := by
  intro h
  have hagree := (h .bump [.throw 7]).agree
  have hocc : Occurs .bump ((machine .bump).final (initial Env.start) [.throw 7]) :=
    ⟨1, rfl, by decide⟩
  cases hagree.mpr hocc

end JniDegger.FakeEnv
