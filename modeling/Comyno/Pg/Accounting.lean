import Comyno.Pg.Tickets

/-!
# The accounting of query callbacks

A call of `pgMessageQuery` that returns an error has queued no task, and its callback is never
called.  A call that returns success has queued one task, whose callback gets the messages that the
task itself has selected, at most once; and once all pools are idle the callback was called unless
a call of the connector threw in the task.  This holds whatever other calls there are, on any
clients, from application threads or from callbacks, and in whatever order the workers execute
their tasks.

## Main results

* `accounted_of_tickets` : the records of the calls say so.
* `exists_settled` : the process can go on until a task that waits or executes has ended.
* `queries_accounted` : both for every run, in which moreover no two callbacks are in progress at
  once.
-/

namespace Comyno.Pg

open Conc

/-- What a call of `pgMessageQuery` and its task have done. -/
structure Accounted (s : State) (k : ℕ) (R : Record) : Prop where
  error : R.result = some .pgError → R.queued = [] ∧ s.calls k = []
  success : R.result = some .pgSuccess →
    ∃ task, R.queued = [(R.client, task)] ∧ task.ticket = k ∧ R.Identifies task.exchangeID
  /-- The callback gets the messages that its own task has selected. -/
  called : s.calls k = [] ∨ ∃ task messages, R.queued = [(R.client, task)] ∧
    R.Identifies task.exchangeID ∧ R.select = some (task.query, messages) ∧
      s.calls k = [messages]
  idle : (∀ c, ¬ s.Busy c) → R.result = some .pgSuccess →
    ((s.calls k).length = 1 ↔ R.failed = false)

/-- A task of the call `k` is queued or executing. -/
def State.Pending (s : State) (k : ℕ) : Prop :=
  (∃ c, ∃ task ∈ (s.pool c).tasks, task.ticket = k) ∨
    ∃ w x, s.pc w = .run x ∧ x.task.ticket = k

section Records

variable {s : State} {k : ℕ} {R : Record}

/-- The callback of a task that executes, or has ended, was called at most once, with the messages
that were selected. -/
theorem Record.Executed.calls {task : Task} {calls : List (List Message)} {pc : TaskPc}
    (h : R.Executed task calls pc) :
    calls = [] ∨ ∃ messages, calls = [messages] ∧ R.select = some (task.query, messages) := by
  cases pc with
  | resultGetAll | lock | call => exact Or.inl h.1
  | callback r => exact Or.inr ⟨r, h⟩
  | unlock => exact Or.inr h
  | _ => exact Or.inl h

theorem Record.Completed.calls {task : Task} {calls : List (List Message)}
    (h : R.Completed task calls) :
    calls = [] ∨ ∃ messages, calls = [messages] ∧ R.select = some (task.query, messages) := by
  unfold Record.Completed at h
  split at h
  · exact Or.inl h
  · exact Or.inr h

theorem Record.Completed.length_iff {task : Task} {calls : List (List Message)}
    (h : R.Completed task calls) : calls.length = 1 ↔ R.failed = false := by
  unfold Record.Completed at h
  split at h
  · rename_i hfail
    simp [h, hfail]
  · rename_i hfail
    obtain ⟨r, rfl, -⟩ := h
    simpa using hfail

/-- A task that was queued, and neither waits nor executes, has ended. -/
theorem Ticket.ended_of_not_pending (h : Ticket s k R) (hk : ¬ s.Pending k) (hR : R.queued ≠ []) :
    R.stage = .ended := by
  have hloc := h.located
  unfold State.Located at hloc
  cases hstage : R.stage <;> simp only [hstage] at hloc
  case notCalled => exact absurd (congrArg Record.queued hloc.1) hR
  case calling => exact absurd hloc.2.1 hR
  case refused => exact absurd hloc.1 hR
  case queued c =>
    obtain ⟨-, -, -, task, hO⟩ := hloc
    have htasks := h.tasks c
    rw [if_pos hstage, hO.queued] at htasks
    have hmem : task ∈ s.tasksOf k c := by simp [htasks]
    exact absurd (Or.inl ⟨c, task, (List.mem_filter.1 hmem).1, hO.ticket⟩) hk
  case executing w =>
    obtain ⟨-, -, x, hx, hO, -⟩ := hloc
    exact absurd (Or.inr ⟨w, x, hx, hO.ticket⟩) hk
  case ended => rfl

/-- In a state in which all pools are idle, no task waits or executes. -/
theorem State.not_pending_of_idle (hidle : ∀ c, ¬ s.Busy c) : ¬ s.Pending k := by
  rintro (⟨c, task, hmem, -⟩ | ⟨w, x, hx, -⟩)
  · exact hidle c (Or.inl (List.ne_nil_of_mem hmem))
  · exact hidle w.client (Or.inr ⟨w.index, x, hx⟩)

/-- The callback of a task that has ended was called, unless a call of the connector threw. -/
theorem Ticket.length_calls_iff (h : Ticket s k R) (hk : ¬ s.Pending k) (hR : R.queued ≠ []) :
    (s.calls k).length = 1 ↔ R.failed = false := by
  have hloc := h.located
  simp only [State.Located, h.ended_of_not_pending hk hR] at hloc
  obtain ⟨task, -, hC⟩ := hloc
  exact hC.length_iff

/-- **The record of a call accounts for it.** -/
theorem accounted_of_ticket (h : Ticket s k R) : Accounted s k R := by
  have hloc := h.located
  have hended : (∀ c, ¬ s.Busy c) → R.queued ≠ [] →
      ((s.calls k).length = 1 ↔ R.failed = false) :=
    fun hidle hne => h.length_calls_iff (State.not_pending_of_idle hidle) hne
  unfold State.Located at hloc
  cases hstage : R.stage <;> simp only [hstage] at hloc
  case notCalled =>
    obtain ⟨rfl, hcalls⟩ := hloc
    exact ⟨by simp, by simp, Or.inl hcalls, by simp⟩
  case calling =>
    obtain ⟨-, hnil, hres, -, hcalls⟩ := hloc
    exact ⟨by simp [hres], by simp [hres], Or.inl hcalls, by simp [hres]⟩
  case refused =>
    obtain ⟨hnil, hres, hcalls⟩ := hloc
    exact ⟨fun _ => ⟨hnil, hcalls⟩, by simp [hres], Or.inl hcalls, by simp [hres]⟩
  case queued c =>
    obtain ⟨-, -, hcalls, task, hO⟩ := hloc
    exact ⟨fun e => absurd e hO.result, fun _ => ⟨task, hO.queued, hO.ticket, hO.exchangeID⟩,
      Or.inl hcalls, fun hidle _ => hended hidle (by simp [hO.queued])⟩
  case executing w =>
    obtain ⟨-, -, x, -, hO, hE⟩ := hloc
    refine ⟨fun e => absurd e hO.result, fun _ => ⟨x.task, hO.queued, hO.ticket, hO.exchangeID⟩,
      ?_, fun hidle _ => hended hidle (by simp [hO.queued])⟩
    refine hE.calls.imp_right fun ⟨messages, hcalls, hsel⟩ => ?_
    exact ⟨x.task, messages, hO.queued, hO.exchangeID, hsel, hcalls⟩
  case ended =>
    obtain ⟨task, hO, hC⟩ := hloc
    refine ⟨fun e => absurd e hO.result, fun _ => ⟨task, hO.queued, hO.ticket, hO.exchangeID⟩,
      ?_, fun hidle _ => hended hidle (by simp [hO.queued])⟩
    refine hC.calls.imp_right fun ⟨messages, hcalls, hsel⟩ => ?_
    exact ⟨task, messages, hO.queued, hO.exchangeID, hsel, hcalls⟩

end Records

/-! ### No task is stuck -/

/-- The process with the records of its queries. -/
abbrev accounted : Machine (State × (ℕ → Record)) Label := pg.observe account

section Settle

variable {s s' : State} {l : Label} {k : ℕ} {A A' : ℕ → Record} {w : Worker}

/-- A task that executes is not queued again. -/
theorem Tickets.executing_step (hs : Tickets s A) (h : Step s l s')
    (hR : (A k).stage = .executing w ∨ (A k).stage = .ended) :
    (account A s l s' k).stage = .executing w ∨ (account A s l s' k).stage = .ended := by
  by_cases hk : s.ticket l = some k
  · have hk' := hk
    rw [account_self hk]
    have hcalling : ∀ t, (A k).stage ≠ .calling t := by
      intro t
      rcases hR with hR | hR <;> simp [hR]
    cases h with
    | @loop v a P hP =>
      simp only [State.ticket] at hk
      split at hk
      · rename_i task tasks hpc hold
        have := (hs.ticket k).queued_of_mem (hold ▸ List.mem_cons_self) (Option.some.inj hk)
        rcases hR with hR | hR <;> simp [hR] at this
      · cases hk
    | @task v a _ x m pc _ hx _ htask =>
      simp only [Record.note, hx, State.setInvoked_pc, State.setMutex_pc, State.setPc_pc_self]
      cases pc with
      | run =>
        have hstage : ((A k).connector x a).stage = (A k).stage := by
          unfold Record.connector
          split <;> rfl
        exact hstage ▸ hR
      | _ => exact Or.inr rfl
    | callQuery =>
      obtain rfl : s.next = k := by simpa [State.ticket] using hk
      have := hs.fresh s.next (Nat.le_refl _)
      rcases hR with hR | hR <;> simp [hR] at this
    | query hf hq =>
      simp only [State.ticket, hf, Option.some.injEq] at hk
      cases (hs.ticket k).eq_notify hcalling hf hk
      cases hq.usesConnector
    | enqueue hf | push hf | pushStopped hf =>
      simp only [State.ticket, hf, Option.some.injEq] at hk
      cases (hs.ticket k).eq_notify hcalling hf hk
    | notifyOne | notifyNobody => exact hR
    | callDestructor => simp [State.ticket] at hk
    | dtorLock hf | dtorStop hf | dtorNotify hf | dtorJoin hf | dtorJoinThrow hf | dtorDone hf =>
      simp [State.ticket, hf] at hk
  · rwa [account_of_ne hk]

/-- A task that executes can end, and is gone then. -/
theorem exists_settled_of_run
    (h : accounted.ReachableWhere (fun p l => ProperCallbacks p.1 l) (State.init, fun _ => {})
      (s, A)) {x : Execution} (hx : s.pc w = .run x) :
    s.CanReach fun s' => ¬ s'.Pending x.task.ticket := by
  have hproper : pg.ReachableWhere ProperCallbacks State.init s :=
    Machine.maps_observe.reachableWhere (fun _ _ _ hl hg => by cases hg; exact hl) h
  obtain ⟨s', hr, hpc⟩ := exists_ended hproper hx
  refine ⟨s', hr, ?_⟩
  obtain ⟨A', hA'⟩ := hr.exists_observe (u := account) A
  have hA : Tickets s A := tickets_of_reachable h
  obtain ⟨hs', hstage⟩ : Tickets s' A' ∧ ((A' x.task.ticket).stage = .executing w ∨
      (A' x.task.ticket).stage = .ended) := by
    refine hA'.invariant (I := fun p => Tickets p.1 p.2 ∧
      ((p.2 x.task.ticket).stage = .executing w ∨ (p.2 x.task.ticket).stage = .ended))
      ⟨hA, Or.inl ((hA.ticket _).run w x hx rfl)⟩ fun p l p' hp hl hst => ?_
    obtain ⟨hstep, hp'⟩ := Machine.observe_step_eq_some_iff.1 hst
    have hstep := (step_cases hstep).2
    rw [hp']
    exact ⟨hp.1.step hl.proper.1 hstep, hp.1.executing_step hstep hp.2⟩
  have hended : (A' x.task.ticket).stage = .ended := by
    refine hstage.resolve_left fun hex => ?_
    have hloc := (hs'.ticket x.task.ticket).located
    simp only [State.Located, hex] at hloc
    obtain ⟨-, -, y, hy, -⟩ := hloc
    rw [hpc] at hy
    cases hy
  rintro (⟨c, task, hmem, hk⟩ | ⟨u, y, hy, hk⟩)
  · have := (hs'.ticket _).queued_of_mem hmem hk
    simp [hended] at this
  · have := (hs'.ticket _).run u y hy hk
    simp [hended] at this

/-- **No task is stuck**: the process can go on until the task of the call has ended. -/
theorem exists_settled
    (h : accounted.ReachableWhere (fun p l => ProperCallbacks p.1 l) (State.init, fun _ => {})
      (s, A)) (hk : s.Pending k) : s.CanReach fun s' => ¬ s'.Pending k := by
  rcases hk with ⟨c, task, hmem, rfl⟩ | ⟨w, x, hx, rfl⟩
  · have hproper : pg.ReachableWhere ProperCallbacks State.init s :=
      Machine.maps_observe.reachableWhere (fun _ _ _ hl hg => by cases hg; exact hl) h
    refine (exists_started hproper hmem).trans fun s' hr ⟨i, hi⟩ => ?_
    obtain ⟨A', hA'⟩ := hr.exists_observe (u := account) A
    exact exists_settled_of_run (h.trans (hA'.mono fun _ _ hl => hl.proper)) hi
  · exact exists_settled_of_run h hx

end Settle

/-- **The accounting of query callbacks.**  In every run in which callbacks are non-empty, return
and destroy no client: every call of `pgMessageQuery` is accounted for, no two callbacks are in
progress at once, and no task is stuck. -/
theorem queries_accounted {ls : List Label} {s : State} (h : pg.run State.init ls = some s)
    (hls : pg.AllSteps ProperCallbacks State.init ls) :
    ∃ A, accounted.run (State.init, fun _ => {}) ls = some (s, A) ∧
      (∀ k, Accounted s k (A k)) ∧
      (∀ u w, s.InCallback u → s.InCallback w → u = w) ∧
      ∀ k, s.Pending k → s.CanReach fun s' => ¬ s'.Pending k := by
  obtain ⟨A, hA⟩ := Machine.exists_run_observe (u := account) h (fun _ => {} : ℕ → Record)
  have hreach := Machine.reachableWhere_of_run hA (Machine.allSteps_observe hls _)
  refine ⟨A, hA, fun k => accounted_of_ticket ((tickets_of_reachable hreach).ticket k), ?_,
    fun k => exists_settled hreach⟩
  have howner : ∀ u, s.InCallback u → s.mMutex = some u := by
    rintro u ⟨task, messages, hpc⟩
    refine callbackLock_held (Machine.reachableWhere_of_run h hls) u ?_
    simp [callbackLock, hpc, holdsMutex, TaskPc.locked]
  intro u w hu hw
  exact Option.some.inj ((howner u hu).symm.trans (howner w hw))

/-- A query whose callback makes another query. -/
def nestedLabels (m : Message) : List Label :=
  queryLabels 0 0 true ++ fetchLabels ⟨0, 0⟩ [m] ++
    [.work ⟨0, 0⟩ (.task .lock), .work ⟨0, 0⟩ (.task .invoke),
      .call (.worker ⟨0, 0⟩) (.pgMessageQuery 0 true "")] ++
    List.replicate 4 (.exec (.worker ⟨0, 0⟩) .ok) ++
    [.notify (.worker ⟨0, 0⟩) none, .work ⟨0, 0⟩ (.task .callbackReturn),
      .work ⟨0, 0⟩ (.task .unlock)]

/-- A row that the first query finds. -/
def storedMessage : Message := ⟨1, "message", "2021-03-01 12:00:00"⟩

/-- A query made by a callback: the first one is done, and the second one can be. -/
theorem nested_query_accounted :
    ∃ s, pg.run State.init (nestedLabels storedMessage) = some s ∧
      s.calls 0 = [[storedMessage]] ∧ s.CanReach fun s' => ¬ s'.Pending 1 := by
  have hrun : ∃ s, pg.run State.init (nestedLabels storedMessage) = some s ∧
      s.calls 0 = [[storedMessage]] ∧ (s.pool 0).tasks = [⟨1, -1, true⟩] := ⟨_, rfl, rfl, rfl⟩
  obtain ⟨s, hs, hcalls, htasks⟩ := hrun
  have hls : pg.AllSteps ProperCallbacks State.init (nestedLabels storedMessage) := by
    refine Machine.allSteps_of_labels fun l hl s => ⟨?_, ?_, ?_⟩
    · rintro w rfl
      simp [nestedLabels, queryLabels, fetchLabels] at hl
    · rintro w c rfl
      simp [nestedLabels, queryLabels, fetchLabels] at hl
    · rintro t c e rfl
      simp [nestedLabels, queryLabels, fetchLabels] at hl
  obtain ⟨A, -, -, -, hdrain⟩ := queries_accounted hs hls
  have hmem : ⟨1, -1, true⟩ ∈ (s.pool 0).tasks := by simp [htasks]
  exact ⟨s, hs, hcalls, hdrain 1 (Or.inl ⟨0, _, hmem, rfl⟩)⟩

end Comyno.Pg
