import JniDegger.ThreadPool

/-!
# What holds between any two steps of the thread pool

Proved here, for any number of workers, any calls and any order of steps:

* `critical_sections`: two threads are never between taking and releasing
  `queue_mutex` at once, the queue is not empty when `front` is called, and the
  pool accepts until it is stopped and refuses from then on;
* `tasks_run_in_order`: the tasks taken are the oldest of those accepted, in
  order, and each of them has been run or is being run;
* `no_lost_wakeup`: a worker sleeps only while somebody else will see to each task
  in the queue, or to the stop.
-/

namespace JniDegger.ThreadPool
open Interleaving
open scoped List

variable {τ : Type*} {p q : Pool τ} {m : Move τ} {es log : List (Event τ)}

/-! ## The mutex -/

def Worker.holds : Worker τ → Bool
  | .testing | .taking => true
  | _ => false

def Caller.holds : Caller τ → Bool
  | .testing _ => true
  | _ => false

/-- The thread is between taking the mutex and releasing it. -/
def Pool.holds (p : Pool τ) : Thread → Bool
  | .worker i => p.workers[i]?.any Worker.holds
  | .caller i => p.callers[i]?.any Caller.holds
  | .destructor => p.destructor = .stopping

/-- The mutex belongs to the thread that is in its critical section. -/
def Locks (p : Pool τ) : Prop :=
  ∀ th, p.holds th = true ↔ p.queueMutex = some th

theorem any_set {α : Type*} (f : α → Bool) {l : List α} {i : Nat} {a : α} (h : l[i]? = some a)
    (b : α) (j : Nat) : (l.set i b)[j]?.any f = if i = j then f b else l[j]?.any f := by
  obtain ⟨hi, -⟩ := List.getElem?_eq_some_iff.mp h
  rw [List.getElem?_set]
  split
  · simp
  · rfl

theorem any_map_notified (ws : List (Worker τ)) (j : Nat) :
    (ws.map Worker.notified)[j]?.any Worker.holds = ws[j]?.any Worker.holds := by
  rw [List.getElem?_map]
  cases ws[j]? with
  | none => rfl
  | some w => cases w <;> rfl

theorem Locks.acquire (h : Locks p) (hfree : p.queueMutex = none) {th : Thread}
    (hq : q.queueMutex = some th)
    (hh : ∀ other, q.holds other = if other = th then true else p.holds other) : Locks q := by
  intro other
  rw [hh, hq]
  split
  · next he => simp [he]
  · next hne =>
    rw [h other, hfree]
    simp [Ne.symm hne]

theorem Locks.release (h : Locks p) {t : Thread} (hin : p.holds t = true)
    (hq : q.queueMutex = none)
    (hh : ∀ other, q.holds other = if other = t then false else p.holds other) : Locks q := by
  intro other
  rw [hh, hq]
  split
  · simp
  · next hne =>
    rw [h other, (h t).mp hin]
    simp [Ne.symm hne]

theorem Locks.keep (h : Locks p) (hq : q.queueMutex = p.queueMutex)
    (hh : ∀ other, q.holds other = p.holds other) : Locks q := by
  intro other
  rw [hh, hq, h other]

theorem holds_worker {i : Nat} {w : Worker τ} (hw : p.workers[i]? = some w) :
    p.holds (.worker i) = w.holds := by
  simp [Pool.holds, hw]

theorem holds_caller {i : Nat} {c : Caller τ} (hc : p.callers[i]? = some c) :
    p.holds (.caller i) = c.holds := by
  simp [Pool.holds, hc]

theorem holds_set_worker {i : Nat} {w : Worker τ} (hw : p.workers[i]? = some w)
    (b : Worker τ) (tasks : List τ) (owner : Option Thread) (th : Thread) :
    Pool.holds { p with workers := p.workers.set i b, tasks := tasks, queueMutex := owner } th =
      if th = .worker i then b.holds else p.holds th := by
  cases th with
  | worker j =>
    rw [Pool.holds, any_set _ hw]
    simp only [Thread.worker.injEq, eq_comm (a := j)]
    rfl
  | caller j => rfl
  | destructor => rfl

theorem holds_set_caller {i : Nat} {c : Caller τ} (hc : p.callers[i]? = some c)
    (b : Caller τ) (tasks : List τ) (owner : Option Thread) (th : Thread) :
    Pool.holds { p with callers := p.callers.set i b, tasks := tasks, queueMutex := owner } th =
      if th = .caller i then b.holds else p.holds th := by
  cases th with
  | worker j => rfl
  | caller j =>
    rw [Pool.holds, any_set _ hc]
    simp only [Thread.caller.injEq, eq_comm (a := j)]
    rfl
  | destructor => rfl

theorem holds_destructor (d : Destructor) (ws : List (Worker τ)) (owner : Option Thread)
    (stop : Bool) (hws : ∀ j : Nat, ws[j]?.any Worker.holds = p.workers[j]?.any Worker.holds)
    (th : Thread) :
    Pool.holds { p with destructor := d, workers := ws, queueMutex := owner, stop := stop } th =
      if th = .destructor then decide (d = .stopping) else p.holds th := by
  cases th with
  | worker j => simpa [Pool.holds] using hws j
  | caller j => rfl
  | destructor => rfl

theorem Locks.step (h : Locks p) (hs : Step p m q es) : Locks q := by
  have hset : ∀ {i : Nat} {w : Worker τ}, p.workers[i]? = some w → ∀ b : Worker τ,
      b.holds = w.holds → Locks { p with workers := p.workers.set i b } := by
    intro i w hw b hb
    refine h.keep rfl fun th => ?_
    rw [holds_set_worker hw]
    split
    · next he => rw [he, holds_worker hw, hb]
    · rfl
  cases hs with
  | lock hw hfree => exact h.acquire hfree rfl (holds_set_worker hw _ _ _)
  | pass hw | finish hw | spurious hw => exact hset hw _ rfl
  | sleep hw | exit hw | take hw =>
    exact h.release ((holds_worker hw).trans rfl) rfl (holds_set_worker hw _ _ _)
  | undefined => exact h
  | enter _ hc hfree => exact h.acquire hfree rfl (holds_set_caller hc _ _ _)
  | refuse _ hc | accept _ hc =>
    exact h.release ((holds_caller hc).trans rfl) rfl (holds_set_caller hc _ _ _)
  | @notify i woken hlive hc hw =>
    refine Locks.keep (hset hw .locking rfl) rfl fun th => ?_
    rw [holds_set_caller (p := { p with workers := p.workers.set woken .locking }) hc]
    split
    · next he => rw [he, holds_caller (p := { p with workers := p.workers.set woken .locking }) hc]; rfl
    · rfl
  | notifyNobody _ hc =>
    refine h.keep rfl fun th => ?_
    rw [holds_set_caller hc]
    split
    · next he => rw [he, holds_caller hc]; rfl
    · rfl
  | destructorLock hd hfree =>
    exact h.acquire hfree rfl (holds_destructor _ _ _ _ fun _ => rfl)
  | setStop hd =>
    refine h.release (t := .destructor) (by simp [Pool.holds, hd]) rfl ?_
    exact holds_destructor _ _ _ _ fun _ => rfl
  | notifyAll hd | join hd | «return» hd | destroy hd =>
    refine h.keep rfl fun th => ?_
    first
      | rw [holds_destructor _ _ _ _ (any_map_notified _)]
      | rw [holds_destructor _ _ _ _ fun _ => rfl]
    split
    · next he => simp [he, Pool.holds, hd]
    · rfl
  | call =>
    refine h.keep rfl fun th => ?_
    cases th with
    | caller j =>
      simp only [Pool.holds, List.getElem?_append]
      split
      · rfl
      · next hj =>
        rw [List.getElem?_eq_none (by omega : p.callers.length ≤ j)]
        cases j - p.callers.length <;> rfl
    | worker j => rfl
    | destructor => rfl

/-! ## Who is awake -/

/-- Awake and on the way to the queue. -/
def Worker.contends : Worker τ → Bool
  | .locking | .testing | .taking => true
  | _ => false

def Caller.notifies : Caller τ → Bool
  | .notifying => true
  | _ => false

/-- The destructor has set `stop`. -/
def Destructor.pastStop : Destructor → Bool
  | .notifying | .joining _ | .returned => true
  | _ => false

/-- What holds of the pool between any two steps. -/
structure Safe (p : Pool τ) : Prop where
  locks : Locks p
  taking : .taking ∈ p.workers → p.stop = true ∨ p.tasks ≠ []
  returned : .returned ∈ p.workers → p.stop = true ∧ p.tasks = []
  stopped : p.stop = true ↔ p.destructor.pastStop = true
  /-- nobody sleeps through the stop -/
  woken : .waiting ∈ p.workers → p.stop = true → p.destructor = .notifying
  joined : ∀ k, p.destructor = .joining k → ∀ i < k, p.workers[i]? = some .returned
  allJoined : p.destructor = .returned → ∀ w ∈ p.workers, w = .returned
  /-- nobody sleeps through a task -/
  seen : .waiting ∈ p.workers →
    p.tasks.length ≤ p.callers.countP Caller.notifies + p.workers.countP Worker.contends

theorem mem_set {α : Type*} {l : List α} {i : Nat} {a b : α} (h : a ∈ l.set i b) (hne : a ≠ b) :
    a ∈ l :=
  (List.mem_or_eq_of_mem_set h).resolve_right hne

theorem mem_map_notified {ws : List (Worker τ)} {w : Worker τ}
    (h : w ∈ ws.map Worker.notified) (hne : w ≠ .locking) : w ≠ .waiting ∧ w ∈ ws := by
  obtain ⟨v, hv, rfl⟩ := List.mem_map.mp h
  cases v <;> simp_all [Worker.notified]

/-- Nobody else is in the critical section of worker `i`. -/
theorem Locks.alone (h : Locks p) {i j : Nat} {v w : Worker τ} (hv : p.workers[i]? = some v)
    (hvh : v.holds = true) (hw : p.workers[j]? = some w) (hwh : w.holds = true) : i = j := by
  have hi := (h (.worker i)).mp ((holds_worker hv).trans hvh)
  have hj := (h (.worker j)).mp ((holds_worker hw).trans hwh)
  rw [hi] at hj
  simpa using hj

theorem Safe.step_taking (h : Safe p) (hs : Step p m q es) :
    .taking ∈ q.workers → q.stop = true ∨ q.tasks ≠ [] := by
  intro ht
  cases hs with
  | pass _ hc => exact hc
  | @take i task tasks hw hcons =>
    -- the worker that takes is the only one there
    exfalso
    obtain ⟨j, hj⟩ := List.mem_iff_getElem?.mp ht
    rw [List.getElem?_set] at hj
    split at hj
    · split at hj <;> cases hj
    · next hne => exact hne (h.locks.alone hw rfl hj rfl)
  | accept => exact .inr (by simp)
  | setStop => exact .inl rfl
  | notifyAll => exact h.taking (mem_map_notified ht (by simp)).2
  | undefined | enter | refuse | notifyNobody | destructorLock | join | «return» | call
  | destroy => exact h.taking ht
  | lock | sleep | exit | finish | notify | spurious =>
    exact h.taking (mem_set ht (by simp))

theorem Safe.step_returned (h : Safe p) (hs : Step p m q es) :
    .returned ∈ q.workers → q.stop = true ∧ q.tasks = [] := by
  intro hr
  cases hs with
  | exit _ hstop hnil => exact ⟨hstop, hnil⟩
  | take hw hcons =>
    have hnil := (h.returned (mem_set hr (by simp))).2
    rw [hcons] at hnil
    cases hnil
  | accept _ _ hstop =>
    have := (h.returned hr).1
    rw [hstop] at this
    cases this
  | setStop => exact ⟨rfl, (h.returned hr).2⟩
  | notifyAll => exact h.returned (mem_map_notified hr (by simp)).2
  | undefined | enter | refuse | notifyNobody | destructorLock | join | «return» | call
  | destroy => exact h.returned hr
  | lock | pass | sleep | finish | notify | spurious =>
    exact h.returned (mem_set hr (by simp))

theorem Safe.step_stopped (h : Safe p) (hs : Step p m q es) :
    q.stop = true ↔ q.destructor.pastStop = true := by
  have hp := h.stopped
  cases hs with
  | setStop => simp [Destructor.pastStop]
  | destructorLock hd | notifyAll hd | join hd | «return» hd | destroy hd =>
    rw [hd] at hp
    exact hp
  | _ => exact hp

theorem Safe.step_woken (h : Safe p) (hs : Step p m q es) :
    .waiting ∈ q.workers → q.stop = true → q.destructor = .notifying := by
  intro hw hstop
  cases hs with
  | sleep _ hgo =>
    rw [hgo] at hstop
    cases hstop
  | setStop => rfl
  | notifyAll => exact absurd rfl (mem_map_notified hw (by simp)).1
  | destructorLock hd | join hd | «return» hd | destroy hd =>
    have := h.woken hw hstop
    rw [hd] at this
    cases this
  | undefined | enter | refuse | accept | notifyNobody | call => exact h.woken hw hstop
  | lock | pass | exit | take | finish | notify | spurious =>
    exact h.woken (mem_set hw (by simp)) hstop

theorem returned_set {ws : List (Worker τ)} {i j : Nat} {a : Worker τ} (ha : ws[i]? = some a)
    (hne : a ≠ .returned) (b : Worker τ) (h : ws[j]? = some .returned) :
    (ws.set i b)[j]? = some .returned := by
  rw [List.getElem?_set]
  split
  · next he =>
    rw [← he, ha] at h
    exact absurd (Option.some.inj h) hne
  · exact h

theorem Safe.step_joined (h : Safe p) (hs : Step p m q es) :
    ∀ k, q.destructor = .joining k → ∀ i < k, q.workers[i]? = some .returned := by
  intro k hk i hi
  cases hs with
  | lock hw | pass hw | sleep hw | exit hw | take hw | finish hw | notify _ _ hw
  | spurious hw => exact returned_set hw (by simp) _ (h.joined k hk i hi)
  | notifyAll =>
    simp only [Destructor.joining.injEq] at hk
    omega
  | @join j hd hw =>
    simp only [Destructor.joining.injEq] at hk
    by_cases hij : i = j
    · rw [hij]
      exact hw
    · exact h.joined j hd i (by omega)
  | destructorLock | setStop | «return» | destroy => cases hk
  | _ => exact h.joined k hk i hi

theorem Safe.step_allJoined (h : Safe p) (hs : Step p m q es) :
    q.destructor = .returned → ∀ w ∈ q.workers, w = .returned := by
  intro hd w hw
  cases hs with
  | lock hv | pass hv | sleep hv | exit hv | take hv | finish hv | notify _ _ hv
  | spurious hv =>
    have := h.allJoined hd _ (List.mem_of_getElem? hv)
    cases this
  | @«return» k hj hnone =>
    obtain ⟨i, hi⟩ := List.mem_iff_getElem?.mp hw
    have hlt := (List.getElem?_eq_some_iff.mp hi).1
    have hk := h.joined k hj i (Nat.lt_of_lt_of_le hlt (List.getElem?_eq_none_iff.mp hnone))
    exact Option.some.inj (hi.symm.trans hk)
  | destructorLock | setStop | notifyAll | join | destroy => cases hd
  | _ => exact h.allJoined hd w hw

/-- **A sleeping worker is not needed.** -/
theorem Safe.step_seen (h : Safe p) (hs : Step p m q es) : .waiting ∈ q.workers →
    q.tasks.length ≤ q.callers.countP Caller.notifies + q.workers.countP Worker.contends := by
  intro hw
  have hworkers := fun {i : Nat} {a : Worker τ} => countP_set_add (l := p.workers) (i := i) (a := a)
    Worker.contends
  have hcallers := fun {i : Nat} {a : Caller τ} => countP_set_add (l := p.callers) (i := i) (a := a)
    Caller.notifies
  cases hs with
  | sleep _ _ hnil | exit _ _ hnil => simp [hnil]
  | @lock i hv =>
    have hset := hworkers hv .testing
    have := h.seen (mem_set hw (by simp))
    simp only [Worker.contends, Bool.toNat_true] at hset ⊢
    omega
  | @pass i hv =>
    have hset := hworkers hv .taking
    have := h.seen (mem_set hw (by simp))
    simp only [Worker.contends, Bool.toNat_true] at hset ⊢
    omega
  | @take i task tasks hv hcons =>
    have hset := hworkers hv (.running task)
    have hseen := h.seen (mem_set hw (by simp))
    rw [hcons, List.length_cons] at hseen
    simp only [Worker.contends, Bool.toNat_true, Bool.toNat_false] at hset ⊢
    omega
  | @finish i task hv =>
    have hset := hworkers hv .locking
    have := h.seen (mem_set hw (by simp))
    simp only [Worker.contends, Bool.toNat_true, Bool.toNat_false] at hset ⊢
    omega
  | @spurious i hv =>
    have hset := hworkers hv .locking
    have := h.seen (List.mem_of_getElem? hv)
    simp only [Worker.contends, Bool.toNat_true, Bool.toNat_false] at hset ⊢
    omega
  | @enter i _ task _ hc =>
    have hset := hcallers hc (.testing task)
    have := h.seen hw
    simp only [Caller.notifies, Bool.toNat_false] at hset ⊢
    omega
  | @refuse i _ task _ hc =>
    have hset := hcallers hc .threw
    have := h.seen hw
    simp only [Caller.notifies, Bool.toNat_false] at hset ⊢
    omega
  | @accept i _ task _ hc =>
    have hset := hcallers hc .notifying
    have := h.seen hw
    simp only [Caller.notifies, Bool.toNat_true, Bool.toNat_false, List.length_append,
      List.length_singleton] at hset ⊢
    omega
  | @notify i woken _ hc hv =>
    have hset := hcallers hc .returned
    have hset' := hworkers hv .locking
    have := h.seen (List.mem_of_getElem? hv)
    simp only [Caller.notifies, Worker.contends, Bool.toNat_true, Bool.toNat_false]
      at hset hset' ⊢
    omega
  | notifyNobody _ _ hnone => exact absurd hw hnone
  | notifyAll => exact absurd rfl (mem_map_notified hw (by simp)).1
  | call =>
    rw [List.countP_append]
    exact Nat.le_trans (h.seen hw) (Nat.add_le_add_right (Nat.le_add_right _ _) _)
  | undefined | destructorLock | setStop | join | «return» | destroy => exact h.seen hw

theorem Safe.step (h : Safe p) (hs : Step p m q es) : Safe q :=
  ⟨h.locks.step hs, h.step_taking hs, h.step_returned hs, h.step_stopped hs, h.step_woken hs,
    h.step_joined hs, h.step_allJoined hs, h.step_seen hs⟩

theorem new_workers {n : Nat} {w : Worker τ} (hw : w ∈ (Pool.new n : Pool τ).workers) :
    w = .locking :=
  List.eq_of_mem_replicate hw

theorem locks_new (n : Nat) : Locks (Pool.new n : Pool τ) := by
  intro th
  have : (Pool.new n : Pool τ).queueMutex = none := rfl
  cases th with
  | worker i =>
    have hnone : (Pool.new n : Pool τ).workers[i]?.any Worker.holds = false := by
      rw [Pool.new, List.getElem?_replicate]
      split <;> rfl
    simp [Pool.holds, hnone, this]
  | caller i => simp [Pool.holds, Pool.new]
  | destructor => simp [Pool.holds, Pool.new]

theorem safe_new (n : Nat) : Safe (Pool.new n : Pool τ) where
  locks := locks_new n
  taking h := absurd (new_workers h) (by simp)
  returned h := absurd (new_workers h) (by simp)
  stopped := by simp [Pool.new, Destructor.pastStop]
  woken h := absurd (new_workers h) (by simp)
  joined k hk := by cases hk
  allJoined h := by cases h
  seen h := absurd (new_workers h) (by simp)

theorem safe_of_run {n : Nat} {ms : List (Move τ)}
    (h : (system τ).Run (Pool.new n) ms log p) : Safe p :=
  h.invariant (fun p _ => Safe p) (safe_new n) fun _ _ _ _ _ hp hm => hp.step (step_cases hm)

/-! ## What becomes of the tasks -/

def Event.accepted? : Event τ → Option τ
  | .accepted task => some task
  | _ => none

def Event.started? : Event τ → Option τ
  | .started task => some task
  | _ => none

def Event.finished? : Event τ → Option τ
  | .finished task => some task
  | _ => none

def accepted (log : List (Event τ)) : List τ := log.filterMap Event.accepted?

def started (log : List (Event τ)) : List τ := log.filterMap Event.started?

def finished (log : List (Event τ)) : List τ := log.filterMap Event.finished?

def Worker.task? : Worker τ → Option τ
  | .running task => some task
  | _ => none

def Pool.running (p : Pool τ) : List τ := p.workers.filterMap Worker.task?

/-- Nothing is refused before the pool is stopped, nothing accepted after. -/
def Closed (stop : Bool) (log : List (Event τ)) : Prop :=
  if stop then ∃ before after, log = before ++ .stopped :: after ∧
    (∀ task, .rejected task ∉ before) ∧ ∀ task, .accepted task ∉ after
  else .stopped ∉ log ∧ ∀ task, .rejected task ∉ log

/-- Where the tasks shown in the log are now. -/
structure History (p : Pool τ) (log : List (Event τ)) : Prop where
  queue : accepted log = started log ++ p.tasks
  runs : (started log).Perm (finished log ++ p.running)
  defined : .frontOfEmpty ∉ log
  closed : Closed p.stop log

theorem running_notified (ws : List (Worker τ)) :
    (ws.map Worker.notified).filterMap Worker.task? = ws.filterMap Worker.task? := by
  rw [List.filterMap_map]
  congr 1
  funext w
  cases w <;> rfl

/-- A worker that changes places without beginning or ending a task. -/
theorem perm_running_set {i : Nat} {a b : Worker τ} (ha : p.workers[i]? = some a)
    (hnone : a.task? = none) (hb : b.task? = none) :
    ((p.workers.set i b).filterMap Worker.task?).Perm p.running := by
  have := perm_filterMap_set Worker.task? ha b
  rwa [hnone, hb] at this

theorem History.step_queue (h : History p log) (hs : Step p m q es) :
    accepted (log ++ es) = started (log ++ es) ++ q.tasks := by
  have hq := h.queue
  simp only [accepted, started, List.filterMap_append] at hq ⊢
  cases hs with
  | take _ hcons => simpa [List.filterMap_cons, Event.accepted?, Event.started?, hcons] using hq
  | accept => simp [List.filterMap_cons, Event.accepted?, Event.started?, hq]
  | _ => simpa [List.filterMap_cons, Event.accepted?, Event.started?] using hq

theorem History.step_runs (h : History p log) (hs : Step p m q es) :
    (started (log ++ es)).Perm (finished (log ++ es) ++ q.running) := by
  have hr := h.runs
  have hkeep : ∀ {ws : List (Worker τ)}, (ws.filterMap Worker.task?).Perm p.running →
      (started log).Perm (finished log ++ ws.filterMap Worker.task?) := fun hws =>
    hr.trans (hws.symm.append_left _)
  simp only [started, finished, List.filterMap_append] at hr hkeep ⊢
  cases hs with
  | @take i task tasks hw =>
    have hset : ((p.workers.set i (.running task)).filterMap Worker.task?).Perm
        (task :: p.running) := perm_filterMap_set Worker.task? hw (.running task)
    simp only [List.filterMap_cons, Event.started?, Event.finished?, List.filterMap_nil,
      List.append_nil, Pool.running]
    calc List.filterMap Event.started? log ++ [task]
      _ ~ task :: List.filterMap Event.started? log := List.perm_append_singleton _ _
      _ ~ task :: (List.filterMap Event.finished? log ++ p.running) := hr.cons task
      _ ~ List.filterMap Event.finished? log ++ task :: p.running := List.perm_middle.symm
      _ ~ _ := hset.symm.append_left _
  | @finish i task hw =>
    have hset : (task :: (p.workers.set i .locking).filterMap Worker.task?).Perm p.running :=
      perm_filterMap_set Worker.task? hw .locking
    simp only [List.filterMap_cons, Event.started?, Event.finished?, List.filterMap_nil,
      List.append_nil, Pool.running]
    calc List.filterMap Event.started? log
      _ ~ List.filterMap Event.finished? log ++ p.running := hr
      _ ~ List.filterMap Event.finished? log ++ task :: _ := hset.symm.append_left _
      _ ~ _ := by rw [List.append_assoc]; rfl
  | lock hw | pass hw | sleep hw | exit hw | notify _ _ hw | spurious hw =>
    simpa [Pool.running] using hkeep (perm_running_set hw rfl rfl)
  | notifyAll =>
    simpa [Pool.running] using hkeep (.of_eq (running_notified p.workers))
  | _ => simpa [List.filterMap_cons, Event.finished?, Event.started?, Pool.running] using hr

theorem History.step_defined (h : History p log) (hp : Safe p) (hs : Step p m q es) :
    .frontOfEmpty ∉ log ++ es := by
  rw [List.mem_append, not_or]
  refine ⟨h.defined, ?_⟩
  cases hs with
  | undefined hw hgo hnil =>
    rcases hp.taking (List.mem_of_getElem? hw) with hstop | hne
    · rw [hgo] at hstop
      cases hstop
    · exact absurd hnil hne
  | _ => simp

theorem Closed.append {stop : Bool} (h : Closed stop log) (hacc : ∀ task, .accepted task ∈ es →
    stop = false) (hrej : ∀ task, .rejected task ∈ es → stop = true) (hes : .stopped ∉ es) :
    Closed stop (log ++ es) := by
  cases stop with
  | false =>
    refine ⟨?_, fun task => ?_⟩
    · rw [List.mem_append, not_or]
      exact ⟨h.1, hes⟩
    · rw [List.mem_append, not_or]
      exact ⟨h.2 task, fun hr => absurd (hrej task hr) (by simp)⟩
  | true =>
    obtain ⟨before, after, rfl, hbefore, hafter⟩ := h
    refine ⟨before, after ++ es, by simp, hbefore, fun task => ?_⟩
    rw [List.mem_append, not_or]
    exact ⟨hafter task, fun ha => absurd (hacc task ha) (by simp)⟩

theorem History.step_closed (h : History p log) (hp : Safe p) (hs : Step p m q es) :
    Closed q.stop (log ++ es) := by
  have hc := h.closed
  cases hs with
  | setStop hd =>
    have hgo : p.stop = false := by
      rw [← Bool.not_eq_true, hp.stopped, hd]
      simp [Destructor.pastStop]
    rw [hgo] at hc
    exact ⟨log, [], rfl, hc.2, by simp⟩
  | refuse _ _ hstop => exact hc.append (by simp) (by simp [hstop]) (by simp)
  | accept _ _ hgo => exact hc.append (by simp [hgo]) (by simp) (by simp)
  | _ => exact hc.append (by simp) (by simp) (by simp)

theorem history_of_run {n : Nat} {ms : List (Move τ)}
    (h : (system τ).Run (Pool.new n) ms log p) : Safe p ∧ History p log := by
  refine h.invariant (fun p log => Safe p ∧ History p log) ⟨safe_new n, ?_⟩ ?_
  · have hidle : (Pool.new n : Pool τ).running = [] := by
      rw [Pool.running, List.filterMap_eq_nil_iff]
      exact fun w hw => new_workers hw ▸ rfl
    exact ⟨rfl, by rw [hidle]; rfl, by simp, by simp [Closed, Pool.new]⟩
  · rintro p log m q es ⟨hp, hh⟩ hm
    have hs := step_cases hm
    exact ⟨hp.step hs, hh.step_queue hs, hh.step_runs hs, hh.step_defined hp hs,
      hh.step_closed hp hs⟩

/-! ## All runs of a new pool -/

section Runs

variable {n : Nat} {ms : List (Move τ)}

/-- Two workers, a task that the second one runs, and the destructor, which finds the
first one awake. -/
def shortLife : List (Move Nat) :=
  [.worker 0, .worker 0, .call 7, .caller 0 0, .caller 0 0, .worker 1, .worker 1, .worker 1,
    .caller 0 0, .destroy, .destructor, .destructor, .worker 1, .worker 1, .worker 1, .worker 1,
    .destructor, .worker 0, .worker 0, .worker 0, .destructor, .destructor, .destructor]

def queuedPool : Pool Nat := ⟨[.waiting, .locking], [.notifying], .notCalled, [7], none, false⟩

theorem queuedPool_reached :
    (system Nat).Run (Pool.new 2) (shortLife.take 5) [.accepted 7] queuedPool :=
  .of_exec rfl

/-- **Critical sections exclude each other**, so no worker takes from an empty queue, and
nothing is refused before the stop or accepted after it. -/
theorem critical_sections (h : (system τ).Run (Pool.new n) ms log p) :
    (∀ a b, p.holds a = true → p.holds b = true → a = b) ∧ .frontOfEmpty ∉ log ∧
      Closed p.stop log := by
  obtain ⟨hp, hh⟩ := history_of_run h
  refine ⟨fun a b ha hb => ?_, hh.defined, hh.closed⟩
  have hab := ((hp.locks a).mp ha).symm.trans ((hp.locks b).mp hb)
  exact Option.some.inj hab

theorem critical_sections_queuedPool :
    (∀ a b, queuedPool.holds a = true → queuedPool.holds b = true → a = b) ∧
      .frontOfEmpty ∉ [Event.accepted 7] ∧ Closed queuedPool.stop [.accepted 7] :=
  critical_sections queuedPool_reached

/-- **First in, first out, and once.**  The tasks taken so far and the queue are the tasks
accepted, in order; a task taken is being run or has been. -/
theorem tasks_run_in_order (h : (system τ).Run (Pool.new n) ms log p) :
    accepted log = started log ++ p.tasks ∧ started log ~ finished log ++ p.running := by
  obtain ⟨-, hh⟩ := history_of_run h
  exact ⟨hh.queue, hh.runs⟩

theorem tasks_run_in_order_queuedPool :
    accepted [.accepted 7] = started [.accepted 7] ++ queuedPool.tasks ∧
      started [.accepted 7] ~ finished [.accepted 7] ++ queuedPool.running :=
  tasks_run_in_order queuedPool_reached

/-- **No wakeup is lost.**  While a worker sleeps, there are at least as many calls about to
notify and workers on their way to the queue as tasks in it, and if the pool has been
stopped the destructor is about to notify everybody. -/
theorem no_lost_wakeup (h : (system τ).Run (Pool.new n) ms log p) (hw : .waiting ∈ p.workers) :
    p.tasks.length ≤ p.callers.countP Caller.notifies + p.workers.countP Worker.contends ∧
      (p.stop = true → p.destructor = .notifying) :=
  ⟨(safe_of_run h).seen hw, (safe_of_run h).woken hw⟩

theorem no_lost_wakeup_queuedPool :
    queuedPool.tasks.length ≤ queuedPool.callers.countP Caller.notifies +
        queuedPool.workers.countP Worker.contends ∧
      (queuedPool.stop = true → queuedPool.destructor = .notifying) :=
  no_lost_wakeup queuedPool_reached (by simp [queuedPool])

end Runs

end JniDegger.ThreadPool
