import Comyno.Conc.Fifo
import Comyno.Pg.Destruction
import Comyno.Pg.Drain

/-!
# The order of the tasks

A `ThreadPool` has one queue and five workers.  The record of the queue of a client says which tasks
its calls of `pgMessageQuery` have queued, and which of them a worker has begun.

## Main results

* `tasks_begin_in_order` : the tasks of a client begin in the order in which they were queued, each
  once; and once `~PGClient` has returned, all of them have ended, and no task is queued or begun
  any more.
-/

namespace Comyno.Pg

open Conc

/-- What a step does to the queue of the client `c`: `enqueue` appends a task unless the pool is
stopped, and a worker that finds a task takes it. -/
def State.taskAct (s : State) (l : Label) (c : ClientId) : QueueAct Task :=
  match l with
  | .exec t .ok => match s.frame t with
    | .query (.push task) q =>
      if q.client = c ∧ (s.pool c).stop = false then .push task else .keep
    | _ => .keep
  | .work w (.loop .check) => match (s.pool c).tasks with
    | task :: _ => if w.client = c then .pop task else .keep
    | [] => .keep
  | _ => .keep

section Step

variable {s s' : State} {l : Label} {c : ClientId}

/-- Only `enqueue` appends to a queue. -/
theorem State.taskAct_exec_of_ne {t : Thread} {x : Outcome}
    (h : ∀ task q, s.frame t ≠ .query (.push task) q) : s.taskAct (.exec t x) c = .keep := by
  cases x with
  | ok => simp [taskAct]
  | _ => rfl

/-- **What a step does to a queue.** -/
theorem Step.takes (h : Step s l s') (c : ClientId) :
    (s.taskAct l c).Takes (s.pool c).tasks (s'.pool c).tasks := by
  have hkeep : s.taskAct l c = .keep → (s'.pool c).tasks = (s.pool c).tasks →
      (s.taskAct l c).Takes (s.pool c).tasks (s'.pool c).tasks := by
    intro hact heq
    rw [hact, heq]
    exact .keep
  cases h with
  | @loop w a P hP =>
    by_cases hc : c = w.client
    · subst hc
      cases hP with
      | @take task tasks hpc ht =>
        rw [State.taskAct, ht]
        simpa using QueueAct.Takes.pop
      | leave hpc ht | wait hpc ht => exact hkeep (by simp [State.taskAct, ht]) (by simp)
      | _ => exact hkeep rfl (by simp)
    · refine hkeep ?_ (by simp [hc])
      cases a with
      | check =>
        simp only [State.taskAct, if_neg fun h : w.client = c => hc h.symm]
        split <;> rfl
      | _ => rfl
  | @push t task q hf hs =>
    by_cases hc : c = q.client
    · subst hc
      simpa [State.taskAct, hf, hs] using QueueAct.Takes.push
    · refine hkeep ?_ (by simp [hc])
      simp [State.taskAct, hf, Ne.symm hc]
  | @pushStopped t task q hf hs =>
    by_cases hc : c = q.client
    · subst hc
      exact hkeep (by simp [State.taskAct, hf, hs]) (by simp)
    · refine hkeep ?_ (by simp [hc])
      simp [State.taskAct, hf, Ne.symm hc]
  | query hf hq =>
    refine hkeep (State.taskAct_exec_of_ne ?_) (by simp)
    rintro task q' hf'
    cases hf.symm.trans hf'
    cases hq.usesConnector
  | @enqueue t task q hf =>
    refine hkeep (State.taskAct_exec_of_ne (by simp [hf])) ?_
    by_cases hc : c = q.client <;> simp [hc]
  | @notifyOne t q | @notifyNobody t q =>
    exact hkeep rfl (by by_cases hc : c = q.client <;> simp [hc])
  | @callDestructor t d =>
    exact hkeep rfl (by by_cases hc : c = d <;> simp [hc, State.pool])
  | @dtorDone t d hf =>
    refine hkeep (State.taskAct_exec_of_ne (by simp [hf])) ?_
    by_cases hc : c = d <;> simp [hc, State.pool]
  | @dtorLock t d hf | @dtorStop t d hf | @dtorNotify t d hf =>
    refine hkeep (State.taskAct_exec_of_ne (by simp [hf])) ?_
    by_cases hc : c = d <;> simp [hc, ThreadPool.notifyAll]
  | dtorJoin hf | dtorJoinThrow hf =>
    exact hkeep (State.taskAct_exec_of_ne (by simp [hf])) (by simp)
  | task | callQuery => exact hkeep rfl (by simp)

/-- A client whose workers have all ended. -/
structure State.Ended (s : State) (c : ClientId) : Prop where
  exited : ∀ i, s.pc ⟨c, i⟩ = .exited
  stop : (s.pool c).stop = true
  tasks : (s.pool c).tasks = []

/-- **Nothing happens to a client that has ended.** -/
theorem State.Ended.step (hs : s.Ended c) (h : Step s l s') :
    s.taskAct l c = .keep ∧ s'.Ended c := by
  have hact : s.taskAct l c = .keep := by
    have ht := h.takes c
    rw [hs.tasks] at ht
    generalize hk : s.taskAct l c = k at ht
    generalize (s'.pool c).tasks = tasks' at ht
    cases ht with
    | keep => rfl
    | push =>
      exfalso
      unfold State.taskAct at hk
      grind [hs.stop]
  refine ⟨hact, fun i => h.pc_of_exited (hs.exited i), h.stop hs.stop, ?_⟩
  have ht := h.takes c
  rw [hact, hs.tasks] at ht
  generalize (s'.pool c).tasks = tasks' at ht ⊢
  cases ht with
  | keep => rfl

end Step

/-- A client whose `~PGClient` has returned has ended. -/
theorem ended_of_reachable {s : State} (h : pg.Reachable State.init s) {c : ClientId}
    (hd : (s.client c).mDatabase = false) : s.Ended c := by
  have hexited := (joins_of_reachable h).database c hd
  obtain ⟨hstop, htasks⟩ := (alert_of_reachable h).exited ⟨c, 0⟩ (hexited 0)
  exact ⟨hexited, hstop, htasks⟩

/-- The client with the record of each queue. -/
abbrev passed : Machine (State × (ClientId → Passage Task)) Label := pg.passing State.taskAct

/-- **Tasks begin in the order in which they were queued, each once.**  In every run of the
process, with any number of clients, threads and exceptions: the tasks queued at a client are those
that a worker has begun, in the same order, followed by those that wait.  Once `~PGClient` has
returned, every task that was ever queued has been begun and has ended, and none is queued or begun
afterwards. -/
theorem tasks_begin_in_order {s : State} {P : ClientId → Passage Task}
    (h : passed.Reachable (State.init, fun _ => {}) (s, P)) (c : ClientId) :
    (P c).entered = (P c).left ++ (s.pool c).tasks ∧
      ((s.client c).mDatabase = false → (P c).left = (P c).entered ∧
        (∀ i, s.pc ⟨c, i⟩ = .exited) ∧
        ∀ s' P', passed.Reachable (s, P) (s', P') → P' c = P c) := by
  have horder : (P c).entered = (P c).left ++ (s.pool c).tasks :=
    Machine.entered_eq (M := pg) (C := fun _ _ => True) (fun s c => (s.pool c).tasks) rfl
      (fun s l s' _ hst => (step_cases hst).2.takes c) h
  refine ⟨horder, fun hd => ?_⟩
  have hended := ended_of_reachable (Machine.maps_observe.reachable h) hd
  refine ⟨?_, hended.exited, fun s' P' h' => ?_⟩
  · rw [horder, hended.tasks, List.append_nil]
  · exact Machine.passage_eq (I := fun s => s.Ended c) (C := fun _ _ => True) hended
      (fun s l s' hs _ hst => hs.step (step_cases hst).2) h'

/-- The steps of `~PGClient` on `c`, with every worker at the top of its loop and no task left. -/
def destroyLabels (i : ℕ) (c : ClientId) : List Label :=
  .call (.app i) (.destructor c) :: List.replicate 3 (.exec (.app i) .ok) ++
    (List.finRange poolSize).flatMap (fun j =>
      [.work ⟨c, j⟩ (.loop .acquire), .work ⟨c, j⟩ (.loop .check)]) ++
    List.replicate 6 (.exec (.app i) .ok)

/-- Two queries, whose tasks fail, and the destruction of the client. -/
def failedLabels : List Label :=
  queryLabels 0 0 true ++ queryLabels 0 0 true ++
    [.work ⟨0, 3⟩ (.loop .acquire), .work ⟨0, 3⟩ (.loop .check),
      .work ⟨0, 1⟩ (.loop .acquire), .work ⟨0, 1⟩ (.loop .check),
      .work ⟨0, 1⟩ (.task (.connector .throw)), .work ⟨0, 3⟩ (.task (.connector .throw))] ++
    destroyLabels 0 0

/-- Both tasks have begun, in order, although the second one ended first. -/
theorem tasks_begin_in_order_failed :
    ∃ s P, passed.run (State.init, fun _ => {}) failedLabels = some (s, P) ∧
      (P 0).entered = [⟨0, -1, true⟩, ⟨1, -1, true⟩] ∧ (P 0).left = (P 0).entered := by
  have hrun : ∃ s P, passed.run (State.init, fun _ => {}) failedLabels = some (s, P) ∧
      (P 0).entered = [⟨0, -1, true⟩, ⟨1, -1, true⟩] ∧ (s.client 0).mDatabase = false :=
    ⟨_, _, rfl, rfl, rfl⟩
  obtain ⟨s, P, hs, hentered, hd⟩ := hrun
  exact ⟨s, P, hs, hentered,
    ((tasks_begin_in_order (Machine.reachable_of_run hs) 0).2 hd).1⟩

end Comyno.Pg
