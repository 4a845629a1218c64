import JniDegger.PoolInvariants

/-!
# The thread pool comes to rest

Proved here, for any number of workers, any calls and any order of steps:

* `weight_lt`: every step the pool takes by itself lowers the bound on the steps
  it has left;
* `internal_runs_drain`: without further calls the pool comes to rest, and it
  rests only when every accepted task has been run;
* `destructor_returns_drained`: when the destructor returns, every accepted task
  has been run, unless the pool has no workers.
-/

namespace JniDegger.ThreadPool
open Interleaving
open scoped List

variable {τ : Type*} {p q : Pool τ} {m : Move τ} {es log : List (Event τ)}

/-! ## Steps left -/

def Worker.weight : Worker τ → Nat
  | .running _ => 4
  | .locking => 3
  | .testing => 2
  | .taking => 1
  | .waiting | .returned => 0

def Caller.weight : Caller τ → Nat
  | .locking _ => 10
  | .testing _ => 9
  | .notifying => 4
  | .returned | .threw => 0

def Destructor.weight (workers : Nat) : Destructor → Nat
  | .notCalled | .returned => 0
  | .locking => 4 * workers + 4
  | .stopping => 4 * workers + 3
  | .notifying => 4 * workers + 2
  | .joining i => workers + 1 - i

/-- A bound on the steps the pool can still take by itself. -/
def Pool.weight (p : Pool τ) : Nat :=
  (p.workers.map Worker.weight).sum + 4 * p.tasks.length + (p.callers.map Caller.weight).sum +
    p.destructor.weight p.workers.length

theorem weight_notified (ws : List (Worker τ)) :
    ((ws.map Worker.notified).map Worker.weight).sum ≤
      (ws.map Worker.weight).sum + 3 * ws.length := by
  induction ws with
  | nil => simp
  | cons w ws ih =>
    have hw : w.notified.weight ≤ w.weight + 3 := by
      cases w <;> simp [Worker.notified, Worker.weight]
    simp only [List.map_cons, List.sum_cons, List.length_cons]
    omega

/-- **Every step of its own brings the pool closer to rest.** -/
theorem weight_lt (hp : Safe p) (hs : Step p m q es) (hm : m.Internal) : q.weight < p.weight := by
  have hworkers := fun {i : Nat} {a : Worker τ} => sum_map_set (l := p.workers) (i := i) (a := a)
    Worker.weight
  have hcallers := fun {i : Nat} {a : Caller τ} => sum_map_set (l := p.callers) (i := i) (a := a)
    Caller.weight
  simp only [Pool.weight]
  cases hs with
  | lock hw =>
    have := hworkers hw .testing
    simp only [Worker.weight, List.length_set] at this ⊢
    omega
  | pass hw =>
    have := hworkers hw .taking
    simp only [Worker.weight, List.length_set] at this ⊢
    omega
  | sleep hw =>
    have := hworkers hw .waiting
    simp only [Worker.weight, List.length_set] at this ⊢
    omega
  | exit hw =>
    have := hworkers hw .returned
    simp only [Worker.weight, List.length_set] at this ⊢
    omega
  | undefined hw hgo hnil =>
    rcases hp.taking (List.mem_of_getElem? hw) with hstop | hne
    · rw [hgo] at hstop
      cases hstop
    · exact absurd hnil hne
  | @take i task tasks hw hcons =>
    have := hworkers hw (.running task)
    simp only [Worker.weight, List.length_set, hcons, List.length_cons] at this ⊢
    omega
  | finish hw =>
    have := hworkers hw .locking
    simp only [Worker.weight, List.length_set] at this ⊢
    omega
  | @enter i _ task _ hc =>
    have := hcallers hc (.testing task)
    simp only [Caller.weight] at this ⊢
    omega
  | refuse _ hc =>
    have := hcallers hc .threw
    simp only [Caller.weight] at this ⊢
    omega
  | accept _ hc =>
    have := hcallers hc .notifying
    simp only [Caller.weight, List.length_append, List.length_singleton] at this ⊢
    omega
  | notify _ hc hw =>
    have hset := hcallers hc .returned
    have hset' := hworkers hw .locking
    simp only [Caller.weight, Worker.weight, List.length_set] at hset hset' ⊢
    omega
  | notifyNobody _ hc =>
    have := hcallers hc .returned
    simp only [Caller.weight] at this ⊢
    omega
  | destructorLock hd | setStop hd =>
    simp only [hd, Destructor.weight]
    omega
  | notifyAll hd =>
    have := weight_notified p.workers
    simp only [hd, Destructor.weight, List.length_map]
    omega
  | @join i hd hw =>
    have := (List.getElem?_eq_some_iff.mp hw).1
    simp only [hd, Destructor.weight]
    omega
  | @«return» i hd hnone =>
    have hi : i ≤ p.workers.length := by
      by_contra hgt
      have hlast := hp.joined i hd p.workers.length (by omega)
      rw [List.getElem?_eq_none (Nat.le_refl _)] at hlast
      cases hlast
    simp only [hd, Destructor.weight]
    omega
  | call | destroy | spurious => exact hm.elim

/-! ## At rest -/

def Caller.ended : Caller τ → Bool
  | .returned | .threw => true
  | _ => false

theorem system_step (p : Pool τ) (m : Move τ) : (system τ).step p m = step p m := rfl

theorem Settled.worker (h : (system τ).Settled Move.Internal p) (hfree : p.queueMutex = none) :
    ∀ w ∈ p.workers, w = .waiting ∨ w = .returned := by
  intro w hw
  obtain ⟨i, hi⟩ := List.mem_iff_getElem?.mp hw
  have hstep := h (.worker i) trivial
  simp only [system_step, step, stepWorker, hi] at hstep
  cases w with
  | waiting => exact .inl rfl
  | returned => exact .inr rfl
  | locking => simp [hfree] at hstep
  | testing => simp only at hstep; split at hstep <;> cases hstep
  | running task => cases hstep
  | taking =>
    simp only at hstep
    split at hstep
    · cases hstep
    · split at hstep <;> cases hstep

theorem Settled.caller (h : (system τ).Settled Move.Internal p) (hfree : p.queueMutex = none)
    (hlive : p.destructor ≠ .returned) : ∀ c ∈ p.callers, c.ended = true := by
  intro c hc
  obtain ⟨i, hi⟩ := List.mem_iff_getElem?.mp hc
  have hstep : ∀ woken, stepCaller p i woken = none := fun woken => h (.caller i woken) trivial
  simp only [stepCaller, if_neg hlive, hi] at hstep
  cases c with
  | locking task => simp [hfree] at hstep
  | testing task =>
    have := hstep 0
    simp only at this
    split at this <;> cases this
  | notifying =>
    -- either nobody sleeps, or one who does can be woken
    by_cases hw : (.waiting : Worker τ) ∈ p.workers
    · obtain ⟨woken, hwoken⟩ := List.mem_iff_getElem?.mp hw
      have := hstep woken
      simp [any_waits.mpr hw, hwoken] at this
    · have := hstep 0
      have hnone : p.workers.any Worker.waits = false := by
        rw [← Bool.not_eq_true, any_waits]
        exact hw
      simp [hnone] at this
  | returned | threw => rfl

/-- Whoever holds the mutex can go on. -/
theorem Settled.free (h : (system τ).Settled Move.Internal p) (hp : Safe p)
    (hlive : p.destructor ≠ .returned) : p.queueMutex = none := by
  cases hm : p.queueMutex with
  | none => rfl
  | some th =>
    exfalso
    have hin := (hp.locks th).mpr hm
    cases th with
    | worker i =>
      have hstep := h (.worker i) trivial
      simp only [system_step, step, stepWorker] at hstep
      cases hi : p.workers[i]? with
      | none => simp [Pool.holds, hi] at hin
      | some w =>
        rw [Pool.holds, hi, Option.any_some] at hin
        simp only [hi] at hstep
        cases w <;> simp only [Worker.holds] at hin hstep <;> try cases hin
        · split at hstep <;> cases hstep
        · split at hstep
          · cases hstep
          · split at hstep <;> cases hstep
    | caller i =>
      have hstep : stepCaller p i 0 = none := h (.caller i 0) trivial
      cases hi : p.callers[i]? with
      | none => simp [Pool.holds, hi] at hin
      | some c =>
        rw [Pool.holds, hi, Option.any_some] at hin
        simp only [stepCaller, if_neg hlive, hi] at hstep
        cases c <;> simp only [Caller.holds] at hin hstep <;> try cases hin
        split at hstep <;> cases hstep
    | destructor =>
      have hd : p.destructor = .stopping := by simpa [Pool.holds] using hin
      have hstep : stepDestructor p = none := h .destructor trivial
      simp [stepDestructor, hd] at hstep

/-- The destructor has not been called, or has returned. -/
theorem Settled.destructor (h : (system τ).Settled Move.Internal p) (hp : Safe p) :
    p.destructor = .notCalled ∨ p.destructor = .returned := by
  by_cases hret : p.destructor = .returned
  · exact .inr hret
  · have hfree := Settled.free h hp hret
    have hstep : stepDestructor p = none := h .destructor trivial
    have hstop := hp.stopped
    cases hd : p.destructor with
    | notCalled => exact .inl rfl
    | returned => exact absurd hd hret
    | locking | stopping | notifying => simp [stepDestructor, hd, hfree] at hstep
    | joining i =>
      exfalso
      simp only [stepDestructor, hd] at hstep
      cases hi : p.workers[i]? with
      | none => simp [hi] at hstep
      | some w =>
        have hw := List.mem_of_getElem? hi
        rcases Settled.worker h hfree w hw with rfl | rfl
        · have := hp.woken hw (by rw [hstop, hd]; rfl)
          rw [hd] at this
          cases this
        · simp [hi] at hstep

/-- **At rest nothing is left to do.** -/
theorem Settled.drained (h : (system τ).Settled Move.Internal p) (hp : Safe p)
    (hworkers : p.workers ≠ []) : p.tasks = [] ∧ p.running = [] := by
  have hidle : ∀ w ∈ p.workers, w = .waiting ∨ w = .returned := by
    rcases Settled.destructor h hp with hd | hd
    · exact Settled.worker h (Settled.free h hp (by simp [hd]))
    · exact fun w hw => .inr (hp.allJoined hd w hw)
  refine ⟨?_, ?_⟩
  · obtain ⟨w, hw⟩ := List.exists_mem_of_ne_nil _ hworkers
    rcases hidle w hw with rfl | rfl
    · have hlive : p.destructor ≠ .returned := fun hd => by
        have := hp.allJoined hd _ hw
        cases this
      have hnone : p.workers.countP Worker.contends = 0 := by
        rw [List.countP_eq_zero]
        intro v hv
        rcases hidle v hv with rfl | rfl <;> simp [Worker.contends]
      have hcalls : p.callers.countP Caller.notifies = 0 := by
        rw [List.countP_eq_zero]
        intro c hc
        have := Settled.caller h (Settled.free h hp hlive) hlive c hc
        cases c <;> simp_all [Caller.ended, Caller.notifies]
      have := hp.seen hw
      rw [hnone, hcalls] at this
      exact List.length_eq_zero_iff.mp (by omega)
    · exact (hp.returned hw).2
  · rw [Pool.running, List.filterMap_eq_nil_iff]
    intro w hw
    rcases hidle w hw with rfl | rfl <;> rfl

/-! ## All runs of a new pool -/

section Runs

variable {n : Nat} {ms : List (Move τ)}

theorem step_workers_length (hs : Step p m q es) : q.workers.length = p.workers.length := by
  cases hs <;> simp

theorem run_workers_length (h : (system τ).Run (Pool.new n) ms log p) : p.workers.length = n :=
  h.invariant (fun p _ => p.workers.length = n) List.length_replicate
    fun _ _ _ _ _ hp hm => (step_workers_length (step_cases hm)).trans hp

theorem started_of_no_workers (h : (system τ).Run (Pool.new 0) ms log p) : started log = [] := by
  have hboth : p.workers = [] ∧ started log = [] := by
    refine h.invariant (fun p log => p.workers = [] ∧ started log = []) ⟨rfl, rfl⟩ ?_
    rintro p log m q es ⟨hnone, hlog⟩ hm
    have hs := step_cases hm
    refine ⟨List.length_eq_zero_iff.mp ?_, ?_⟩
    · rw [step_workers_length hs, hnone, List.length_nil]
    · rw [started, List.filterMap_append]
      rw [started] at hlog
      rw [hlog]
      cases hs with
      | take hw => simp [hnone] at hw
      | _ => rfl
  exact hboth.2

theorem finished_of_drained (h : (system τ).Run (Pool.new n) ms log p)
    (htasks : p.tasks = []) (hrunning : p.running = []) : finished log ~ accepted log := by
  obtain ⟨-, hh⟩ := history_of_run h
  have hqueue := hh.queue
  have hruns := hh.runs
  rw [htasks, List.append_nil] at hqueue
  rw [hrunning, List.append_nil] at hruns
  rw [hqueue]
  exact hruns.symm

/-- **The pool comes to rest.**  In whatever order its threads go on, no more than `weight`
steps are left, and when none is left every accepted task has been run, the destructor has
returned if it was called, and otherwise every call has returned or thrown. -/
theorem internal_runs_drain (hn : 0 < n) (h : (system τ).Run (Pool.new n) ms log p) :
    (∀ ms' log' q, (system τ).Run p ms' log' q → (∀ m ∈ ms', m.Internal) →
      ms'.length + q.weight ≤ p.weight ∧
        ((system τ).Settled Move.Internal q →
          q.tasks = [] ∧ finished (log ++ log') ~ accepted (log ++ log') ∧
            (q.destructor = .returned ∨
              q.destructor = .notCalled ∧ ∀ c ∈ q.callers, c.ended = true))) ∧
      ∃ ms' log' q, (system τ).Run p ms' log' q ∧ (∀ m ∈ ms', m.Internal) ∧
        (system τ).Settled Move.Internal q := by
  have hp := safe_of_run h
  have hinv : ∀ (p : Pool τ) (m : Move τ) (q : Pool τ) (es : List (Event τ)), Safe p →
      (system τ).step p m = some (q, es) → Safe q :=
    fun _ _ _ _ hp hm => hp.step (step_cases hm)
  have hdrop : ∀ (p : Pool τ) (m : Move τ) (q : Pool τ) (es : List (Event τ)), Safe p →
      m.Internal → (system τ).step p m = some (q, es) → q.weight < p.weight :=
    fun _ _ _ _ hp hint hm => weight_lt hp (step_cases hm) hint
  refine ⟨fun ms' log' q hrun hint => ?_,
    System.exists_settled Safe Move.Internal Pool.weight hinv hdrop p hp⟩
  obtain ⟨hq, hle⟩ := System.Run.length_add_le Safe Move.Internal Pool.weight hinv hdrop hp hrun
    hint
  refine ⟨hle, fun hset => ?_⟩
  have hall := h.trans hrun
  have hsome : q.workers ≠ [] := List.ne_nil_of_length_pos (by rw [run_workers_length hall]; exact hn)
  obtain ⟨htasks, hrunning⟩ := Settled.drained hset hq hsome
  refine ⟨htasks, finished_of_drained hall htasks hrunning, ?_⟩
  rcases Settled.destructor hset hq with hd | hd
  · have hlive : q.destructor ≠ .returned := by simp [hd]
    exact .inr ⟨hd, Settled.caller hset (Settled.free hset hq hlive) hlive⟩
  · exact .inl hd

/-- **The destructor waits for the tasks.**  When it has returned, so has every worker, and
every accepted task has been run, unless the pool has no worker: then none is ever begun. -/
theorem destructor_returns_drained (h : (system τ).Run (Pool.new n) ms log p)
    (hd : p.destructor = .returned) :
    (∀ w ∈ p.workers, w = .returned) ∧
      (finished log ~ accepted log ∨ n = 0 ∧ started log = [] ∧ accepted log = p.tasks) := by
  obtain ⟨hp, hh⟩ := history_of_run h
  have hret := hp.allJoined hd
  have hrunning : p.running = [] := by
    rw [Pool.running, List.filterMap_eq_nil_iff]
    exact fun w hw => hret w hw ▸ rfl
  refine ⟨hret, ?_⟩
  rcases Nat.eq_zero_or_pos n with rfl | hn
  · have hstarted := started_of_no_workers h
    refine .inr ⟨rfl, hstarted, ?_⟩
    rw [hh.queue, hstarted, List.nil_append]
  · left
    obtain ⟨w, hw⟩ := List.exists_mem_of_length_pos (by rw [run_workers_length h]; exact hn)
    exact finished_of_drained h (hp.returned (hret w hw ▸ hw)).2 hrunning

theorem internal_runs_drain_queuedPool :
    ∃ ms' log' q, (system Nat).Run queuedPool ms' log' q ∧ (∀ m ∈ ms', m.Internal) ∧
      (system Nat).Settled Move.Internal q :=
  (internal_runs_drain (by decide) queuedPool_reached).2

def gonePool : Pool Nat := ⟨[.returned, .returned], [.returned], .returned, [], none, true⟩

theorem gonePool_reached : (system Nat).Run (Pool.new 2) shortLife
    [.accepted 7, .started 7, .stopped, .finished 7] gonePool :=
  .of_exec rfl

theorem destructor_returns_drained_gonePool :
    (∀ w ∈ gonePool.workers, w = .returned) ∧
      (finished [.accepted 7, .started 7, .stopped, .finished 7] ~
          accepted [.accepted 7, .started 7, .stopped, .finished 7] ∨
        2 = 0 ∧ started [.accepted 7, .started 7, .stopped, .finished 7] = [] ∧
          accepted [.accepted 7, .started 7, .stopped, .finished 7] = gonePool.tasks) :=
  destructor_returns_drained gonePool_reached rfl

end Runs

end JniDegger.ThreadPool
