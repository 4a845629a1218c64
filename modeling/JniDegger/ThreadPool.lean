import JniDegger.Interleaving

/-!
# The thread pool

The workers, the calls of `enqueue` and the destructor of `ThreadPool.h`, one
step for each stretch of code between two points where another thread can get in:
taking `queue_mutex`, testing the predicate under it, going to sleep, waking up,
running a task outside it.  A task is taken to end; what it throws ends in its
future.

`step_cases` lists what one step can do, with what it needs and what it leaves.
-/

namespace JniDegger.ThreadPool
open Interleaving

variable {τ : Type*}

/-- The threads that lock `queue_mutex`. -/
inductive Thread where
  | worker (i : Nat)
  | caller (i : Nat)
  | destructor
  deriving DecidableEq

inductive Worker (τ : Type*) where
  /-- about to lock, first or inside `condition.wait` after being woken -/
  | locking
  /-- about to test the predicate of `condition.wait`, holding the mutex -/
  | testing
  /-- behind `condition.wait`, holding the mutex -/
  | taking
  /-- asleep in `condition.wait` -/
  | waiting
  | running (task : τ)
  | returned
  deriving DecidableEq

inductive Caller (τ : Type*) where
  | locking (task : τ)
  /-- about to test `stop`, holding the mutex -/
  | testing (task : τ)
  /-- about to call `condition.notify_one`, without the mutex -/
  | notifying
  | returned
  | threw
  deriving DecidableEq

inductive Destructor where
  | notCalled
  | locking
  /-- about to set `stop`, holding the mutex -/
  | stopping
  /-- about to call `condition.notify_all` -/
  | notifying
  /-- about to join this worker -/
  | joining (i : Nat)
  | returned
  deriving DecidableEq

structure Pool (τ : Type*) where
  workers : List (Worker τ)
  /-- the calls of `enqueue` so far -/
  callers : List (Caller τ)
  destructor : Destructor
  tasks : List τ
  queueMutex : Option Thread
  stop : Bool
  deriving DecidableEq

inductive Event (τ : Type*) where
  | accepted (task : τ)
  | rejected (task : τ)
  | started (task : τ)
  | finished (task : τ)
  | stopped
  /-- `tasks.front()` of an empty queue, which C++ leaves undefined -/
  | frontOfEmpty
  deriving DecidableEq

/-- `ThreadPool(threads)` -/
def Pool.new (threads : Nat) : Pool τ :=
  ⟨List.replicate threads .locking, [], .notCalled, [], none, false⟩

def Worker.waits : Worker τ → Bool
  | .waiting => true
  | _ => false

/-- What `notify_all` does to a worker. -/
def Worker.notified : Worker τ → Worker τ
  | .waiting => .locking
  | w => w

/-- The loop of a worker. -/
def stepWorker (p : Pool τ) (i : Nat) : Option (Pool τ × List (Event τ)) :=
  match p.workers[i]? with
  | some .locking =>
    match p.queueMutex with
    | none => some ({ p with workers := p.workers.set i .testing,
                             queueMutex := some (.worker i) }, [])
    | some _ => none
  | some .testing =>
    if p.stop || !p.tasks.isEmpty then
      some ({ p with workers := p.workers.set i .taking }, [])
    else
      some ({ p with workers := p.workers.set i .waiting, queueMutex := none }, [])
  | some .taking =>
    if p.stop && p.tasks.isEmpty then
      some ({ p with workers := p.workers.set i .returned, queueMutex := none }, [])
    else
      match p.tasks with
      | [] => some (p, [.frontOfEmpty])
      | task :: tasks =>
        some ({ p with workers := p.workers.set i (.running task), tasks := tasks,
                       queueMutex := none }, [.started task])
  | some (.running task) =>
    some ({ p with workers := p.workers.set i .locking }, [.finished task])
  | _ => none

/-- `enqueue`; its `notify_one` wakes worker `woken` if any worker is asleep.  Once the
destructor has returned there is no pool to call. -/
def stepCaller (p : Pool τ) (i woken : Nat) : Option (Pool τ × List (Event τ)) :=
  if p.destructor = .returned then none
  else
    match p.callers[i]? with
    | some (.locking task) =>
      match p.queueMutex with
      | none => some ({ p with callers := p.callers.set i (.testing task),
                               queueMutex := some (.caller i) }, [])
      | some _ => none
    | some (.testing task) =>
      if p.stop then
        -- "enqueue on stopped ThreadPool"; the lock goes with the exception
        some ({ p with callers := p.callers.set i .threw, queueMutex := none },
          [.rejected task])
      else
        some ({ p with callers := p.callers.set i .notifying, tasks := p.tasks ++ [task],
                       queueMutex := none }, [.accepted task])
    | some .notifying =>
      if p.workers.any Worker.waits then
        match p.workers[woken]? with
        | some .waiting =>
          some ({ p with callers := p.callers.set i .returned,
                         workers := p.workers.set woken .locking }, [])
        | _ => none
      else some ({ p with callers := p.callers.set i .returned }, [])
    | _ => none

/-- `~ThreadPool` -/
def stepDestructor (p : Pool τ) : Option (Pool τ × List (Event τ)) :=
  match p.destructor with
  | .locking =>
    match p.queueMutex with
    | none => some ({ p with destructor := .stopping, queueMutex := some .destructor }, [])
    | some _ => none
  | .stopping =>
    some ({ p with stop := true, destructor := .notifying, queueMutex := none }, [.stopped])
  | .notifying =>
    some ({ p with workers := p.workers.map Worker.notified, destructor := .joining 0 }, [])
  | .joining i =>
    match p.workers[i]? with
    | none => some ({ p with destructor := .returned }, [])
    | some .returned => some ({ p with destructor := .joining (i + 1) }, [])
    | some _ => none
  | _ => none

/-- Whose turn it is. -/
inductive Move (τ : Type*) where
  | worker (i : Nat)
  | caller (i woken : Nat)
  | destructor
  /-- a new call of `enqueue` -/
  | call (task : τ)
  /-- the call of the destructor -/
  | destroy
  /-- a worker wakes up without being notified -/
  | spurious (i : Nat)

/-- The moves that carry on with what has been called. -/
def Move.Internal : Move τ → Prop
  | .worker _ | .caller _ _ | .destructor => True
  | .call _ | .destroy | .spurious _ => False

def step (p : Pool τ) : Move τ → Option (Pool τ × List (Event τ))
  | .worker i => stepWorker p i
  | .caller i woken => stepCaller p i woken
  | .destructor => stepDestructor p
  | .call task =>
    if p.destructor = .returned then none
    else some ({ p with callers := p.callers ++ [.locking task] }, [])
  | .destroy =>
    if p.destructor = .notCalled then some ({ p with destructor := .locking }, []) else none
  | .spurious i =>
    match p.workers[i]? with
    | some .waiting => some ({ p with workers := p.workers.set i .locking }, [])
    | _ => none

def system (τ : Type*) : System (Pool τ) (Move τ) (Event τ) := ⟨step⟩

/-! ## What a step can do -/

/-- One step, with what it needs and what it leaves. -/
inductive Step (p : Pool τ) : Move τ → Pool τ → List (Event τ) → Prop
  | lock {i} : p.workers[i]? = some .locking → p.queueMutex = none →
      Step p (.worker i)
        { p with workers := p.workers.set i .testing, queueMutex := some (.worker i) } []
  | pass {i} : p.workers[i]? = some .testing → (p.stop = true ∨ p.tasks ≠ []) →
      Step p (.worker i) { p with workers := p.workers.set i .taking } []
  | sleep {i} : p.workers[i]? = some .testing → p.stop = false → p.tasks = [] →
      Step p (.worker i)
        { p with workers := p.workers.set i .waiting, queueMutex := none } []
  | exit {i} : p.workers[i]? = some .taking → p.stop = true → p.tasks = [] →
      Step p (.worker i)
        { p with workers := p.workers.set i .returned, queueMutex := none } []
  | undefined {i} : p.workers[i]? = some .taking → p.stop = false → p.tasks = [] →
      Step p (.worker i) p [.frontOfEmpty]
  | take {i task tasks} : p.workers[i]? = some .taking → p.tasks = task :: tasks →
      Step p (.worker i)
        { p with workers := p.workers.set i (.running task), tasks := tasks,
                 queueMutex := none } [.started task]
  | finish {i task} : p.workers[i]? = some (.running task) →
      Step p (.worker i) { p with workers := p.workers.set i .locking } [.finished task]
  | enter {i woken task} : p.destructor ≠ .returned → p.callers[i]? = some (.locking task) →
      p.queueMutex = none →
      Step p (.caller i woken)
        { p with callers := p.callers.set i (.testing task), queueMutex := some (.caller i) } []
  | refuse {i woken task} : p.destructor ≠ .returned →
      p.callers[i]? = some (.testing task) → p.stop = true →
      Step p (.caller i woken)
        { p with callers := p.callers.set i .threw, queueMutex := none } [.rejected task]
  | accept {i woken task} : p.destructor ≠ .returned →
      p.callers[i]? = some (.testing task) → p.stop = false →
      Step p (.caller i woken)
        { p with callers := p.callers.set i .notifying, tasks := p.tasks ++ [task],
                 queueMutex := none } [.accepted task]
  | notify {i woken} : p.destructor ≠ .returned → p.callers[i]? = some .notifying →
      p.workers[woken]? = some .waiting →
      Step p (.caller i woken)
        { p with callers := p.callers.set i .returned,
                 workers := p.workers.set woken .locking } []
  | notifyNobody {i woken} : p.destructor ≠ .returned → p.callers[i]? = some .notifying →
      Worker.waiting ∉ p.workers →
      Step p (.caller i woken) { p with callers := p.callers.set i .returned } []
  | destructorLock : p.destructor = .locking → p.queueMutex = none →
      Step p .destructor
        { p with destructor := .stopping, queueMutex := some .destructor } []
  | setStop : p.destructor = .stopping →
      Step p .destructor
        { p with stop := true, destructor := .notifying, queueMutex := none } [.stopped]
  | notifyAll : p.destructor = .notifying →
      Step p .destructor
        { p with workers := p.workers.map Worker.notified, destructor := .joining 0 } []
  | join {i} : p.destructor = .joining i → p.workers[i]? = some .returned →
      Step p .destructor { p with destructor := .joining (i + 1) } []
  | return {i} : p.destructor = .joining i → p.workers[i]? = none →
      Step p .destructor { p with destructor := .returned } []
  | call {task} : p.destructor ≠ .returned →
      Step p (.call task) { p with callers := p.callers ++ [.locking task] } []
  | destroy : p.destructor = .notCalled →
      Step p .destroy { p with destructor := .locking } []
  | spurious {i} : p.workers[i]? = some .waiting →
      Step p (.spurious i) { p with workers := p.workers.set i .locking } []

theorem any_waits {ws : List (Worker τ)} : ws.any Worker.waits = true ↔ .waiting ∈ ws := by
  rw [List.any_eq_true]
  constructor
  · rintro ⟨w, hw, hwaits⟩
    cases w <;> simp_all [Worker.waits]
  · exact fun h => ⟨_, h, rfl⟩

theorem stepWorker_cases {p q : Pool τ} {i : Nat} {es : List (Event τ)}
    (h : stepWorker p i = some (q, es)) : Step p (.worker i) q es := by
  unfold stepWorker at h
  split at h
  · next hw =>
    split at h
    · next hfree => cases h; exact .lock hw hfree
    · cases h
  · next hw =>
    split at h
    · next hc => cases h; exact .pass hw (by simpa using hc)
    · next hc =>
      cases h
      simp only [Bool.or_eq_true, Bool.not_eq_true', not_or, Bool.not_eq_true,
        Bool.not_eq_false, List.isEmpty_iff] at hc
      exact .sleep hw hc.1 hc.2
  · next hw =>
    split at h
    · next hc =>
      cases h
      simp only [Bool.and_eq_true, List.isEmpty_iff] at hc
      exact .exit hw hc.1 hc.2
    · next hc =>
      split at h
      · next hnil => cases h; exact .undefined hw (by simpa [hnil] using hc) hnil
      · next hcons => cases h; exact .take hw hcons
  · next hw => cases h; exact .finish hw
  · cases h

theorem stepCaller_cases {p q : Pool τ} {i woken : Nat} {es : List (Event τ)}
    (h : stepCaller p i woken = some (q, es)) : Step p (.caller i woken) q es := by
  unfold stepCaller at h
  split at h
  · cases h
  · next hlive =>
    split at h
    · next hc =>
      split at h
      · next hfree => cases h; exact .enter hlive hc hfree
      · cases h
    · next hc =>
      split at h
      · next hstop => cases h; exact .refuse hlive hc hstop
      · next hstop => cases h; exact .accept hlive hc (by simpa using hstop)
    · next hc =>
      split at h
      · split at h
        · next hw => cases h; exact .notify hlive hc hw
        · cases h
      · next hnone => cases h; exact .notifyNobody hlive hc fun hw => hnone (any_waits.mpr hw)
    · cases h

theorem stepDestructor_cases {p q : Pool τ} {es : List (Event τ)}
    (h : stepDestructor p = some (q, es)) : Step p .destructor q es := by
  unfold stepDestructor at h
  split at h
  · next hd =>
    split at h
    · next hfree => cases h; exact .destructorLock hd hfree
    · cases h
  · next hd => cases h; exact .setStop hd
  · next hd => cases h; exact .notifyAll hd
  · next hd =>
    split at h
    · next hw => cases h; exact .return hd hw
    · next hw => cases h; exact .join hd hw
    · cases h
  · cases h

/-- **Every step is one of these.** -/
theorem step_cases {p q : Pool τ} {m : Move τ} {es : List (Event τ)}
    (h : step p m = some (q, es)) : Step p m q es := by
  cases m with
  | worker i => exact stepWorker_cases h
  | caller i woken => exact stepCaller_cases h
  | destructor => exact stepDestructor_cases h
  | call task =>
    simp only [step] at h
    split at h
    · cases h
    · next hlive => cases h; exact .call hlive
  | destroy =>
    simp only [step] at h
    split at h
    · next hd => cases h; exact .destroy hd
    · cases h
  | spurious i =>
    simp only [step] at h
    split at h
    · next hw => cases h; exact .spurious hw
    · cases h

end JniDegger.ThreadPool
