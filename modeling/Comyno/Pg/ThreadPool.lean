import Mathlib.Data.Fintype.Basic
import Mathlib.Logic.Function.Basic

/-!
# The thread pool

`ThreadPool` runs queued tasks on `n` worker threads.  Its queue and its flag `stop` are only
accessed with `queueMutex` locked, through a `std::unique_lock`; a worker that finds no task
waits on a condition variable.  The pool knows nothing about its tasks: `τ` is the type of what
is queued and `α` the type of what a worker remembers while it executes a task.

`LoopStep` lists the steps of the loop of a worker, and `ThreadPool.loop_cases` says that the list
is complete.
-/

namespace Comyno

/-- The program points of the loop of a worker. -/
inductive LoopPc (α : Type*) where
  /-- At `std::unique_lock<std::mutex> lock(queue_mutex)`, or locking it again in
  `condition.wait`. -/
  | acquire
  /-- `queue_mutex` is locked; at the test of `stop` and `tasks`. -/
  | check
  /-- In `condition.wait`, with `queue_mutex` unlocked. -/
  | wait (notified : Bool)
  /-- In `task()`. -/
  | run (x : α)
  /-- The thread function has returned. -/
  | exited
  deriving DecidableEq, Repr

namespace LoopPc

variable {α : Type*}

/-- In `condition.wait`, and not notified. -/
def sleeping : LoopPc α → Bool
  | wait false => true
  | _ => false

/-- What `notify_all` does to a worker. -/
def notify : LoopPc α → LoopPc α
  | wait _ => wait true
  | pc => pc

variable {pc : LoopPc α}

@[simp] theorem notify_eq_run_iff {x : α} : pc.notify = run x ↔ pc = run x := by
  cases pc <;> simp [notify]

@[simp] theorem notify_eq_check_iff : pc.notify = check ↔ pc = check := by
  cases pc <;> simp [notify]

@[simp] theorem notify_eq_exited_iff : pc.notify = exited ↔ pc = exited := by
  cases pc <;> simp [notify]

theorem notify_of_sleeping (h : pc.sleeping = true) : pc.notify = wait true := by
  cases pc with
  | wait => rfl
  | _ => cases h

end LoopPc

/-- The steps of a worker outside its tasks. -/
inductive LoopAct where
  | acquire
  | check
  /-- `condition.wait` wakes up, because it was notified. -/
  | wake
  /-- `condition.wait` wakes up spuriously. -/
  | wakeSpurious
  deriving DecidableEq, Repr

/-- A `ThreadPool` with `n` workers, in a process with threads `T`. -/
structure ThreadPool (T τ α : Type) (n : ℕ) where
  /-- The owner of `queue_mutex`. -/
  queueMutex : Option T := none
  tasks : List τ := []
  stop : Bool := false
  /-- Where the workers are. -/
  workers : Fin n → LoopPc α := fun _ => .acquire

namespace ThreadPool

variable {T τ α : Type} {n : ℕ} (P : ThreadPool T τ α n)

/-- Worker `i` continues at `pc`. -/
def setWorker (i : Fin n) (pc : LoopPc α) : ThreadPool T τ α n :=
  { P with workers := Function.update P.workers i pc }

/-- `t` locks `queue_mutex`; `none` while it is locked. -/
def lock (t : T) : Option (ThreadPool T τ α n) :=
  match P.queueMutex with
  | none => some { P with queueMutex := some t }
  | some _ => none

/-- `queue_mutex` is unlocked. -/
def unlock : ThreadPool T τ α n := { P with queueMutex := none }

/-- The critical section of `enqueue`; `none` if it throws. -/
def enqueue (task : τ) : Option (ThreadPool T τ α n) :=
  if P.stop then none else some { P with tasks := P.tasks ++ [task] }

/-- `condition.notify_one()` wakes worker `i`, or nobody if nobody waits. -/
def notifyOne : Option (Fin n) → Option (ThreadPool T τ α n)
  | some i => if (P.workers i).sleeping then some (P.setWorker i (.wait true)) else none
  | none => if ∀ i, (P.workers i).sleeping = false then some P else none

/-- `condition.notify_all()`. -/
def notifyAll : ThreadPool T τ α n := { P with workers := fun i => (P.workers i).notify }

/-- One step of worker `i`, run by the thread `t`, outside its tasks; `start` is where the
execution of a task begins. -/
def loop (t : T) (i : Fin n) (start : τ → α) : LoopAct → Option (ThreadPool T τ α n) := fun a =>
  match P.workers i, a with
  | .acquire, .acquire => (P.lock t).map fun P => P.setWorker i .check
  | .check, .check =>
    match P.tasks with
    | task :: tasks => some { P.unlock.setWorker i (.run (start task)) with tasks := tasks }
    | [] => some (P.unlock.setWorker i (if P.stop then .exited else .wait false))
  | .wait true, .wake => some (P.setWorker i .acquire)
  | .wait _, .wakeSpurious => some (P.setWorker i .acquire)
  | _, _ => none

@[simp] theorem setWorker_queueMutex (i : Fin n) (pc : LoopPc α) :
    (P.setWorker i pc).queueMutex = P.queueMutex := rfl
@[simp] theorem setWorker_tasks (i : Fin n) (pc : LoopPc α) :
    (P.setWorker i pc).tasks = P.tasks := rfl
@[simp] theorem setWorker_stop (i : Fin n) (pc : LoopPc α) :
    (P.setWorker i pc).stop = P.stop := rfl

@[simp] theorem setWorker_workers (i j : Fin n) (pc : LoopPc α) :
    (P.setWorker i pc).workers j = if j = i then pc else P.workers j :=
  Function.update_apply ..

@[simp] theorem unlock_queueMutex : P.unlock.queueMutex = none := rfl
@[simp] theorem unlock_tasks : P.unlock.tasks = P.tasks := rfl
@[simp] theorem unlock_stop : P.unlock.stop = P.stop := rfl
@[simp] theorem unlock_workers : P.unlock.workers = P.workers := rfl

variable {P}

theorem lock_eq_some_iff {t : T} {P' : ThreadPool T τ α n} :
    P.lock t = some P' ↔ P.queueMutex = none ∧ P' = { P with queueMutex := some t } := by
  unfold lock
  split <;> simp_all [eq_comm]

theorem enqueue_eq_some_iff {task : τ} {P' : ThreadPool T τ α n} : P.enqueue task = some P' ↔
    P.stop = false ∧ P' = { P with tasks := P.tasks ++ [task] } := by
  unfold enqueue
  split
  · rename_i hs
    simp [hs]
  · rename_i hs
    rw [Option.some.injEq, eq_comm, and_iff_right (eq_false_of_ne_true hs)]

theorem enqueue_eq_none_iff {task : τ} : P.enqueue task = none ↔ P.stop = true := by
  unfold enqueue
  split <;> simp_all

/-- A worker with the queue mutex locked unlocks it with its next step. -/
theorem exists_check (t : T) {i : Fin n} (start : τ → α) (h : P.workers i = .check) :
    ∃ P', P.loop t i start .check = some P' ∧ P'.queueMutex = none := by
  unfold loop
  rw [h]
  cases P.tasks with
  | nil => exact ⟨_, rfl, rfl⟩
  | cons => exact ⟨_, rfl, rfl⟩

/-- A worker locks a queue mutex that is free. -/
theorem exists_acquire (t : T) {i : Fin n} (start : τ → α) (h : P.workers i = .acquire)
    (hfree : P.queueMutex = none) :
    ∃ P', P.loop t i start .acquire = some P' ∧ P'.workers i = .check := by
  unfold loop
  rw [h, lock_eq_some_iff.2 ⟨hfree, rfl⟩]
  exact ⟨_, rfl, by simp⟩

/-- A worker that was notified wakes up. -/
theorem exists_wake (t : T) {i : Fin n} (start : τ → α) (h : P.workers i = .wait true) :
    ∃ P', P.loop t i start .wake = some P' ∧ P'.workers i = .acquire := by
  unfold loop
  rw [h]
  exact ⟨_, rfl, by simp⟩

/-- Some worker is woken by `notify_one`, or nobody waits. -/
theorem exists_notifyOne (P : ThreadPool T τ α n) : ∃ i P', P.notifyOne i = some P' := by
  by_cases h : ∀ i, (P.workers i).sleeping = false
  · exact ⟨none, P, if_pos h⟩
  · push Not at h
    obtain ⟨i, hi⟩ := h
    exact ⟨some i, _, if_pos (by simpa using hi)⟩

end ThreadPool

/-- The steps of the loop of worker `i`, run by the thread `t`. -/
inductive LoopStep {T τ α : Type} {n : ℕ} (P : ThreadPool T τ α n) (t : T) (i : Fin n)
    (start : τ → α) : LoopAct → ThreadPool T τ α n → Prop
  | acquire : P.workers i = .acquire → P.queueMutex = none →
      LoopStep P t i start .acquire { P.setWorker i .check with queueMutex := some t }
  | take {task : τ} {tasks : List τ} : P.workers i = .check → P.tasks = task :: tasks →
      LoopStep P t i start .check
        { P.unlock.setWorker i (.run (start task)) with tasks := tasks }
  | leave : P.workers i = .check → P.tasks = [] → P.stop = true →
      LoopStep P t i start .check (P.unlock.setWorker i .exited)
  | wait : P.workers i = .check → P.tasks = [] → P.stop = false →
      LoopStep P t i start .check (P.unlock.setWorker i (.wait false))
  | wake : P.workers i = .wait true → LoopStep P t i start .wake (P.setWorker i .acquire)
  | wakeSpurious {notified : Bool} : P.workers i = .wait notified →
      LoopStep P t i start .wakeSpurious (P.setWorker i .acquire)

theorem LoopStep.workers_of_ne {T τ α : Type} {n : ℕ} {P P' : ThreadPool T τ α n} {t : T}
    {i j : Fin n} {start : τ → α} {a : LoopAct} (h : LoopStep P t i start a P') (hj : j ≠ i) :
    P'.workers j = P.workers j := by
  cases h <;> simp [hj]

/-- **The list of steps of the loop is complete.** -/
theorem ThreadPool.loop_cases {T τ α : Type} {n : ℕ} {P P' : ThreadPool T τ α n} {t : T}
    {i : Fin n} {start : τ → α} {a : LoopAct} (h : P.loop t i start a = some P') :
    LoopStep P t i start a P' := by
  unfold loop at h
  split at h
  case h_1 hpc =>
    obtain ⟨P₁, hlock, rfl⟩ := Option.map_eq_some_iff.1 h
    obtain ⟨hfree, rfl⟩ := lock_eq_some_iff.1 hlock
    exact .acquire hpc hfree
  case h_2 hpc =>
    split at h
    case h_1 ht =>
      cases h
      exact .take hpc ht
    case h_2 ht =>
      cases h
      by_cases hs : P.stop = true
      · rw [if_pos hs]
        exact .leave hpc ht hs
      · rw [if_neg hs]
        exact .wait hpc ht (eq_false_of_ne_true hs)
  case h_3 hpc =>
    cases h
    exact .wake hpc
  case h_4 hpc =>
    cases h
    exact .wakeSpurious hpc
  case h_5 => cases h

end Comyno
