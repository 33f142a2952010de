import Comyno.Pg.CallbackMutex

/-!
# Every task can be executed

As long as callbacks are non-empty, return and destroy no client, the process never gets stuck with
a task: from every reachable state it can go on, without a new call of the application and without
a spurious wakeup, until the task has started, and from there until it has ended.  The callbacks
of tasks may queue further tasks meanwhile.

What could go wrong is that all workers of a pool with tasks sleep (`Alert` says that they never
do, unless one is about to be notified), or that the threads wait for each other at the queue
mutexes and the mutex of the callbacks (`exists_release`, `frees_of_owner`).

## Main results

* `exists_ended` : an executing task can end.
* `exists_started` : a queued task can start; by induction on the number of tasks before it.
-/

namespace Comyno.Pg

open Conc

/-! ### Tasks with callbacks -/

/-- Callbacks are non-empty, return and destroy no client. -/
def ProperCallbacks (s : State) (l : Label) : Prop :=
  CallbacksReturn s l ∧ AppDestroys s l ∧ ∀ t c e, l ≠ .call t (.pgMessageQuery c false e)

/-- The task that `pgMessageQuery` is about to queue. -/
def QueryPc.task : QueryPc → Option Task
  | .enqueue task | .push task => some task
  | .openConnection | .createTransaction | .quoteString | .executeQuery _ | .resultIsEmpty _
  | .resultGetFirstInt _ | .notify => none

/-- Every query and every task has a callback. -/
structure HasCallbacks (s : State) : Prop where
  query : ∀ t pc q, s.frame t = .query pc q → q.callback = true
  task : ∀ t pc q task, s.frame t = .query pc q → pc.task = some task → task.callback = true
  queued : ∀ c, ∀ task ∈ (s.pool c).tasks, task.callback = true
  run : ∀ w x, s.pc w = .run x → x.task.callback = true

namespace HasCallbacks

variable {s s' : State} {l : Label}

theorem init : HasCallbacks State.init :=
  ⟨fun _ _ _ h => (by cases h), fun _ _ _ _ h => (by cases h), fun _ _ h => (by cases h),
    fun _ _ h => (by cases h)⟩

theorem query_step (hs : HasCallbacks s) (hl : ProperCallbacks s l) (h : Step s l s') :
    ∀ t pc q, s'.frame t = .query pc q → q.callback = true := by
  intro t pc q hf
  by_cases ht : l.thread = some t
  · cases h with
    | @callQuery _ c callback e hr =>
      cases ht
      obtain ⟨-, rfl⟩ : _ ∧ Query.mk s.next c callback e = q := by simpa using hf
      cases callback with
      | true => rfl
      | false => exact absurd rfl (hl.2.2 t c e)
    | query hq hqs =>
      cases ht
      cases hqs <;> simp at hf
      all_goals
        obtain ⟨-, rfl⟩ := hf
        exact hs.query _ _ _ hq
    | enqueue hq | push hq =>
      cases ht
      obtain ⟨-, rfl⟩ : _ ∧ _ = q := by simpa using hf
      exact hs.query _ _ _ hq
    | dtorJoinThrow hq =>
      cases ht
      exact hs.query _ _ _ hf
    | loop | task => cases ht
    | _ =>
      cases ht
      simp at hf
  · rw [h.frame_of_ne ht] at hf
    exact hs.query t pc q hf

theorem task_step (hs : HasCallbacks s) (h : Step s l s') :
    ∀ t pc q task, s'.frame t = .query pc q → pc.task = some task → task.callback = true := by
  intro t pc q task hf hpc
  by_cases ht : l.thread = some t
  · cases h with
    | query hq hqs =>
      cases ht
      have := hs.query _ _ _ hq
      cases hqs <;> simp at hf
      all_goals
        obtain ⟨rfl, rfl⟩ := hf
        cases hpc
        try exact this
    | enqueue hq =>
      cases ht
      obtain ⟨rfl, rfl⟩ : QueryPc.push _ = pc ∧ _ = q := by simpa using hf
      exact hs.task _ _ _ _ hq hpc
    | push hq =>
      cases ht
      obtain ⟨rfl, rfl⟩ : QueryPc.notify = pc ∧ _ = q := by simpa using hf
      cases hpc
    | callQuery =>
      cases ht
      obtain ⟨rfl, -⟩ : QueryPc.openConnection = pc ∧ _ = q := by simpa using hf
      cases hpc
    | dtorJoinThrow hq =>
      cases ht
      exact hs.task _ _ _ _ hf hpc
    | loop | task => cases ht
    | _ =>
      cases ht
      simp at hf
  · rw [h.frame_of_ne ht] at hf
    exact hs.task t pc q task hf hpc

theorem queued_step (hs : HasCallbacks s) (h : Step s l s') :
    ∀ c, ∀ task ∈ (s'.pool c).tasks, task.callback = true := by
  intro c task hmem
  have hm := h.tasks_move c
  generalize (s'.pool c).tasks = tasks at hm hmem
  cases hm with
  | same => exact hs.queued c task hmem
  | @pushed t task' q hf =>
    rcases List.mem_append.1 hmem with hmem | hmem
    · exact hs.queued c task hmem
    · rw [List.mem_singleton.1 hmem]
      exact hs.task t _ q task' hf rfl
  | taken _ hold => exact hs.queued c task (by simp [hold, hmem])

theorem run_step (hs : HasCallbacks s) (h : Step s l s') :
    ∀ w x, s'.pc w = .run x → x.task.callback = true := by
  intro w x hx
  have hm := h.pc_move w
  rw [hx] at hm
  generalize hk : LoopPc.run x = k at hm
  cases hm with
  | same => exact hs.run w x hk.symm
  | notify => exact hs.run w x (LoopPc.notify_eq_run_iff.1 hk.symm)
  | loop hP =>
    cases hP with
    | @take task tasks _ htasks =>
      obtain rfl : x = task.start := by simpa using hk
      exact hs.queued w.client task (by simp [htasks])
    | _ => simp at hk
  | task _ hrun htask =>
    have := hs.run w _ hrun
    cases htask <;> cases hk <;> exact this

theorem step (hs : HasCallbacks s) (hl : ProperCallbacks s l) (h : Step s l s') : HasCallbacks s' :=
  ⟨hs.query_step hl h, hs.task_step h, hs.queued_step h, hs.run_step h⟩

end HasCallbacks

theorem undisturbed_of_proper {s : State} (h : pg.ReachableWhere ProperCallbacks State.init s) :
    pg.ReachableWhere Undisturbed State.init s := by
  have key : HasCallbacks s ∧ pg.ReachableWhere Undisturbed State.init s := by
    refine h.invariant (I := fun s => HasCallbacks s ∧ pg.ReachableWhere Undisturbed State.init s)
      ⟨.init, .refl _⟩ fun s l s' hs hl hst => ?_
    exact ⟨hs.1.step hl (step_cases hst).2,
      hs.2.tail ⟨hl.1, fun w x _ hx => hs.1.run w x hx, hl.2.1⟩ hst⟩
  exact key.2

/-! ### Sleeping workers -/

/-- A pool with tasks has a worker that is awake, or one is about to be notified; and a worker
ends only when its pool is stopped and has no tasks. -/
structure Alert (s : State) : Prop where
  awake : ∀ c, (s.pool c).tasks ≠ [] → (∃ i, (s.pc ⟨c, i⟩).sleeping = false) ∨
    ∃ t q, s.frame t = .query .notify q ∧ q.client = c
  exited : ∀ w, s.pc w = .exited →
    (s.pool w.client).stop = true ∧ (s.pool w.client).tasks = []

namespace Alert

variable {s s' : State} {l : Label}

theorem init : Alert State.init :=
  ⟨fun _ h => absurd rfl h, fun _ h => (by cases h)⟩

/-- A worker falls asleep only if there is no task. -/
theorem sleeping_of_step (h : Step s l s') {w : Worker} (hw : (s.pc w).sleeping = false)
    (hw' : (s'.pc w).sleeping = true) : (s'.pool w.client).tasks = [] := by
  have hm := h.pc_move w
  generalize hk : s'.pc w = k at hm hw'
  cases hm with
  | same => simp [hw] at hw'
  | notify =>
    cases hpc : s.pc w <;> simp_all [LoopPc.notify, LoopPc.sleeping]
  | loop =>
    cases h with
    | loop hP =>
      rw [← hk, State.setPool_pc, if_pos rfl] at hw'
      cases hP <;> simp_all [LoopPc.sleeping]
  | task _ _ htask => cases htask <;> cases hw'

theorem awake_step (hs : Alert s) (h : Step s l s') : ∀ c, (s'.pool c).tasks ≠ [] →
    (∃ i, (s'.pc ⟨c, i⟩).sleeping = false) ∨
      ∃ t q, s'.frame t = .query .notify q ∧ q.client = c := by
  intro c hne
  have hm := h.tasks_move c
  generalize htasks : (s'.pool c).tasks = tasks at hm
  have hold : (s.pool c).tasks ≠ [] ∨ ∃ t q, s'.frame t = .query .notify q ∧ q.client = c := by
    cases hm with
    | same => exact Or.inl (htasks ▸ hne)
    | pushed _ hc _ hf => exact Or.inr ⟨_, _, hf, hc⟩
    | taken _ hold => exact Or.inl (by simp [hold])
  rcases hold with hold | hnew
  · rcases hs.awake c hold with ⟨i, hi⟩ | ⟨t, q, hf, hc⟩
    · refine Or.inl ⟨i, eq_false_of_ne_true fun hi' => hne ?_⟩
      exact sleeping_of_step h hi hi'
    · by_cases ht : l.thread = some t
      · cases h with
        | @notifyOne _ q' i hf' =>
          cases ht
          obtain rfl : q' = q := by simpa [hf'] using hf
          exact Or.inl ⟨i, by simp [State.setPool_pc, hc, LoopPc.sleeping]⟩
        | @notifyNobody _ q' hf' hall =>
          cases ht
          obtain rfl : q' = q := by simpa [hf'] using hf
          subst hc
          exact Or.inl ⟨0, by simp [State.setPool_pc, hall]⟩
        | callQuery hr | callDestructor hr =>
          cases ht
          obtain ⟨last, hidle⟩ := State.idle_of_ready hr
          simp [hidle] at hf
        | query hf' hq =>
          cases ht
          rw [hf] at hf'
          cases hf'
          cases hq.usesConnector
        | loop | task => cases ht
        | _ =>
          cases ht
          simp_all
      · exact Or.inr ⟨t, q, by rw [h.frame_of_ne ht, hf], hc⟩
  · exact Or.inr hnew

theorem exited_step (hs : Alert s) (h : Step s l s') : ∀ w, s'.pc w = .exited →
    (s'.pool w.client).stop = true ∧ (s'.pool w.client).tasks = [] := by
  intro w hw
  -- nothing is queued at a pool that is stopped
  have hkeep : (s.pool w.client).stop = true ∧ (s.pool w.client).tasks = [] →
      (s'.pool w.client).stop = true ∧ (s'.pool w.client).tasks = [] := by
    rintro ⟨hstop, hnil⟩
    refine ⟨h.stop hstop, ?_⟩
    have hm := h.tasks_move w.client
    generalize (s'.pool w.client).tasks = tasks at hm ⊢
    cases hm with
    | same => exact hnil
    | pushed _ _ hrun => simp [hstop] at hrun
    | taken _ hold => simp [hnil] at hold
  have hm := h.pc_move w
  rw [hw] at hm
  generalize hk : LoopPc.exited = k at hm
  cases hm with
  | same => exact hkeep (hs.exited w hk.symm)
  | notify => exact hkeep (hs.exited w (LoopPc.notify_eq_exited_iff.1 hk.symm))
  | @loop a P hP =>
    cases hP with
    | leave _ hnil hstop => exact hkeep ⟨hstop, hnil⟩
    | _ => simp at hk
  | task _ _ htask => cases htask <;> cases hk

theorem step (hs : Alert s) (h : Step s l s') : Alert s' := ⟨hs.awake_step h, hs.exited_step h⟩

end Alert

theorem alert_of_reachable {C : State → Label → Prop} {s : State}
    (h : pg.ReachableWhere C State.init s) : Alert s :=
  h.invariant .init fun _ _ _ hs _ hst => hs.step (step_cases hst).2

/-! ### Tasks that execute -/

/-- The process goes on with what it has begun. -/
def Continues (_ : State) (l : Label) : Prop := l.continues = true

theorem Continues.proper {s : State} {l : Label} (h : Continues s l) : ProperCallbacks s l := by
  refine ⟨?_, ?_, ?_⟩
  · rintro w rfl
    cases h
  · rintro w c rfl
    cases h
  · rintro t c e rfl
    cases h

/-- The process can go on to a state that satisfies `P`. -/
def State.CanReach (s : State) (P : State → Prop) : Prop :=
  ∃ s', pg.ReachableWhere Continues s s' ∧ P s'

namespace State.CanReach

variable {s s' : State} {l : Label} {P Q : State → Prop}

theorem here (h : P s) : s.CanReach P := ⟨s, .refl s, h⟩

theorem head (hl : l.continues = true) (hst : pg.step s l = some s') (h : s'.CanReach P) :
    s.CanReach P := by
  obtain ⟨s'', hr, hP⟩ := h
  exact ⟨s'', .head hl hst hr, hP⟩

theorem trans (h : s.CanReach P) (hP : ∀ s', pg.ReachableWhere Continues s s' → P s' →
    s'.CanReach Q) : s.CanReach Q := by
  obtain ⟨s', hr, hs'⟩ := h
  obtain ⟨s'', hr', hs''⟩ := hP s' hr hs'
  exact ⟨s'', hr.trans hr', hs''⟩

end State.CanReach

section Progress

variable {s s' : State} {w : Worker}

theorem proper_trans (h : pg.ReachableWhere ProperCallbacks State.init s)
    (h' : pg.ReachableWhere Continues s s') : pg.ReachableWhere ProperCallbacks State.init s' :=
  h.trans (h'.mono fun _ _ => Continues.proper)

/-- A worker that has the mutex can end its task. -/
theorem canReach_of_frees (h : s.Frees w) : s.CanReach fun s' => s'.pc w = .acquire := by
  obtain ⟨s', hr, -, hpc⟩ := h
  exact ⟨s', hr.mono fun _ _ hl => hl.1, hpc⟩

/-- A worker that waits for the mutex can end its task. -/
theorem canReach_of_lock (h : pg.ReachableWhere ProperCallbacks State.init s) {task : Task}
    {messages : List Message} (hpc : s.pc w = .run ⟨task, .lock messages⟩) :
    s.CanReach fun s' => s'.pc w = .acquire := by
  -- the owner unlocks the mutex first
  have hfree : s.CanReach fun s' => s'.mMutex = none ∧ s'.pc w = .run ⟨task, .lock messages⟩ := by
    cases hown : s.mMutex with
    | none => exact .here ⟨hown, hpc⟩
    | some u =>
      obtain ⟨s', hr, hfree, hu⟩ := frees_of_owner (undisturbed_of_proper h) hown
      have hin := callbackLock_follows.noOrphan_of_reachable
        (fun _ _ hc => keepsLock_iff.2 hc.1) (undisturbed_of_proper h) trivial
        callbackLock_noOrphan_init u hown
      have hne : w ≠ u := by
        rintro rfl
        simp [callbackLock, hpc, holdsMutex, TaskPc.locked] at hin
      exact ⟨s', hr.mono fun _ _ hl => hl.1, hfree, Finishes.pc_of_reachable hr hne hpc⟩
  refine hfree.trans fun s' hr hs' => ?_
  obtain ⟨hfree, hpc⟩ := hs'
  have h' := proper_trans h hr
  obtain ⟨s'', hst, hpc'⟩ := exists_lock (undisturbed_of_proper h') hpc hfree
  have hl : Continues s' (.work w (.task .lock)) := rfl
  refine .head hl hst (canReach_of_frees (frees_of_call ?_ hpc'))
  exact undisturbed_of_proper (h'.tail hl.proper hst)

/-- A call of the connector may throw, and `queryExchange` catches the exception. -/
theorem Execution.queryExchange_throw (x : Execution) (h : x.pc.usesConnector = true) :
    x.queryExchange (.connector .throw) = some .acquire := by
  obtain ⟨task, pc⟩ := x
  cases pc <;> first | rfl | cases h

/-- **An executing task can end.** -/
theorem exists_ended (h : pg.ReachableWhere ProperCallbacks State.init s) {x : Execution}
    (hpc : s.pc w = .run x) : s.CanReach fun s' => s'.pc w = .acquire := by
  by_cases hx : x.pc.usesConnector = true
  · have hback : ∀ messages, x.pc ≠ .callback messages := by
      intro messages hm
      simp [hm, TaskPc.usesConnector] at hx
    obtain ⟨last, hf⟩ := (callbackFrames_of_reachable h).idle_of_run hpc hback
    have hst := pg_step_task (running_of_reachable (undisturbed_of_proper h))
      (a := .connector .throw) hf hpc rfl (x.queryExchange_throw hx)
    exact .head rfl hst (.here (by simp))
  · obtain ⟨task, pc⟩ := x
    cases pc with
    | lock messages => exact canReach_of_lock h hpc
    | call | callback | unlock =>
      exact canReach_of_frees (frees_of_holdsMutex (undisturbed_of_proper h)
        (by simp [hpc, holdsMutex, TaskPc.locked]))
    | _ => exact absurd rfl hx

end Progress

/-! ### Tasks that wait -/

/-- The task is in the queue of `c`, with fewer than `n` tasks before it. -/
def State.Ahead (s : State) (c : ClientId) (task : Task) (n : ℕ) : Prop :=
  ∃ l₁ l₂, (s.pool c).tasks = l₁ ++ task :: l₂ ∧ l₁.length < n

/-- A worker of `c` begins to execute the task. -/
def State.Starts (s : State) (c : ClientId) (task : Task) : Prop :=
  ∃ i, s.pc ⟨c, i⟩ = .run task.start

section Queue

variable {s s' : State} {l : Label} {c : ClientId} {task : Task} {n : ℕ}

theorem State.Ahead.ne_nil (h : s.Ahead c task n) : (s.pool c).tasks ≠ [] := by
  obtain ⟨l₁, l₂, hl, -⟩ := h
  simp [hl]

/-- Nobody jumps a queue. -/
theorem Step.ahead (h : Step s l s') (hq : s.Ahead c task n) :
    s'.Ahead c task n ∨ s'.Starts c task := by
  obtain ⟨l₁, l₂, hl, hn⟩ := hq
  have hm := h.tasks_move c
  generalize hk : (s'.pool c).tasks = tasks at hm
  cases hm with
  | same => exact Or.inl ⟨l₁, l₂, hk.trans hl, hn⟩
  | @pushed t new q => exact Or.inl ⟨l₁, l₂ ++ [new], by simp [hk, hl], hn⟩
  | taken _ hold hpc =>
    rw [hl] at hold
    cases l₁ with
    | nil =>
      cases hold
      exact Or.inr ⟨_, hpc⟩
    | cons first l₁ =>
      cases hold
      exact Or.inl ⟨l₁, l₂, hk, Nat.lt_of_succ_lt hn⟩

/-- A worker that checks the queue takes the first task. -/
theorem Step.ahead_of_check {i : Fin poolSize} (h : Step s (.work ⟨c, i⟩ (.loop .check)) s')
    (hq : s.Ahead c task (n + 1)) : s'.Ahead c task n ∨ s'.Starts c task := by
  obtain ⟨l₁, l₂, hl, hn⟩ := hq
  cases h with
  | loop hP =>
    cases hP with
    | @take first rest hpc hold =>
      rw [hl] at hold
      cases l₁ with
      | nil =>
        cases hold
        exact Or.inr ⟨i, by simp [State.setPool_pc]⟩
      | cons _ l₁ =>
        cases hold
        exact Or.inl ⟨l₁, l₂, by simp, Nat.lt_of_succ_lt_succ hn⟩
    | leave _ hnil | wait _ hnil => simp [hl] at hnil

theorem ahead_of_reachable (h : pg.ReachableWhere Continues s s') (hq : s.Ahead c task n) :
    s'.Ahead c task n ∨ s.CanReach fun s' => s'.Starts c task := by
  induction h with
  | refl => exact Or.inl hq
  | tail hr hst ih =>
    obtain ⟨l, hl, hst⟩ := hst
    rcases ih with hq | hstarts
    · rcases (step_cases hst).2.ahead hq with hq | hstarts
      · exact Or.inl hq
      · exact Or.inr ⟨_, hr.tail ⟨l, hl, hst⟩, hstarts⟩
    · exact Or.inr hstarts

/-- The task has come forward in the queue, or it starts. -/
def State.Advances (s : State) (c : ClientId) (task : Task) (n : ℕ) : Prop :=
  s.CanReach fun s' => s'.Ahead c task n ∨ s'.Starts c task

theorem State.Advances.of_ahead (hq : s.Ahead c task (n + 1) ∨ s.Starts c task)
    (h : s.Ahead c task (n + 1) → s.Advances c task n) : s.Advances c task n :=
  hq.elim h fun hstarts => .here (Or.inr hstarts)

/-- A worker takes a step of its loop. -/
theorem pg_step_loop (h : pg.ReachableWhere ProperCallbacks State.init s) {i : Fin poolSize}
    {a : LoopAct} {P : Pool}
    (hP : (s.pool c).loop (Thread.worker ⟨c, i⟩) i Task.start a = some P) :
    pg.step s (.work ⟨c, i⟩ (.loop a)) = some (s.setPool c P) := by
  rw [pg_step_work (running_of_reachable (undisturbed_of_proper h)), State.work, hP]
  rfl

/-- A worker with the queue mutex locked takes the first task. -/
theorem advances_of_check (h : pg.ReachableWhere ProperCallbacks State.init s) {i : Fin poolSize}
    (hpc : s.pc ⟨c, i⟩ = .check) (hq : s.Ahead c task (n + 1)) : s.Advances c task n := by
  obtain ⟨P, hP, -⟩ := ThreadPool.exists_check (Thread.worker ⟨c, i⟩) Task.start hpc
  have hst := pg_step_loop h hP
  exact .head rfl hst (.here ((step_cases hst).2.ahead_of_check hq))

/-- A worker locks the queue mutex when it is free. -/
theorem advances_of_free (h : pg.ReachableWhere ProperCallbacks State.init s) {i : Fin poolSize}
    (hpc : s.pc ⟨c, i⟩ = .acquire) (hfree : (s.pool c).queueMutex = none)
    (hq : s.Ahead c task (n + 1)) : s.Advances c task n := by
  obtain ⟨P, hP, hpc'⟩ := ThreadPool.exists_acquire (Thread.worker ⟨c, i⟩) Task.start hpc hfree
  have hst := pg_step_loop h hP
  have hl : Continues s (.work ⟨c, i⟩ (.loop .acquire)) := rfl
  exact .head hl hst (State.Advances.of_ahead ((step_cases hst).2.ahead hq)
    (advances_of_check (h.tail hl.proper hst) (by simpa [State.setPool_pc] using hpc')))

/-- A worker at the queue mutex takes the first task, once whoever holds the mutex has released
it. -/
theorem advances_of_acquire (h : pg.ReachableWhere ProperCallbacks State.init s)
    {i : Fin poolSize} (hpc : s.pc ⟨c, i⟩ = .acquire) (hq : s.Ahead c task (n + 1)) :
    s.Advances c task n := by
  by_cases hfree : (s.pool c).queueMutex = none
  · exact advances_of_free h hpc hfree hq
  · obtain ⟨l, s', hl, hst, hfree', -, -⟩ :=
      exists_release h (running_of_reachable (undisturbed_of_proper h)) hfree
    have hl' : Continues s l := by
      rcases hl with ⟨w, rfl⟩ | ⟨t, rfl, -⟩ <;> rfl
    have hpc' : s'.pc ⟨c, i⟩ = .acquire := by
      have hm := (step_cases hst).2.pc_move ⟨c, i⟩
      generalize s'.pc ⟨c, i⟩ = k at hm ⊢
      cases hm with
      | same => exact hpc
      | notify => rw [hpc]; rfl
      | loop hP =>
        have hpc : (s.pool c).workers i = .acquire := hpc
        rcases hl with ⟨w, hl⟩ | ⟨t, hl, -⟩ <;> cases hl
        cases hP <;> simp_all
      | task _ hx _ => simp [hpc] at hx
    exact .head hl' hst (State.Advances.of_ahead ((step_cases hst).2.ahead hq)
      (advances_of_free (h.tail hl'.proper hst) hpc' hfree'))

/-- A worker that is awake comes to the queue mutex. -/
theorem advances_of_awake (h : pg.ReachableWhere ProperCallbacks State.init s) {i : Fin poolSize}
    (hi : (s.pc ⟨c, i⟩).sleeping = false) (hq : s.Ahead c task (n + 1)) :
    s.Advances c task n := by
  cases hpc : s.pc ⟨c, i⟩ with
  | acquire => exact advances_of_acquire h hpc hq
  | check => exact advances_of_check h hpc hq
  | wait notified =>
    obtain rfl : notified = true := by
      cases notified with
      | true => rfl
      | false => simp [hpc, LoopPc.sleeping] at hi
    obtain ⟨P, hP, hpc'⟩ := ThreadPool.exists_wake (Thread.worker ⟨c, i⟩) Task.start hpc
    have hst := pg_step_loop h hP
    have hl : Continues s (.work ⟨c, i⟩ (.loop .wake)) := rfl
    exact .head hl hst (State.Advances.of_ahead ((step_cases hst).2.ahead hq)
      (advances_of_acquire (h.tail hl.proper hst) (by simpa [State.setPool_pc] using hpc')))
  | run x =>
    obtain ⟨s', hr, hpc'⟩ := exists_ended h hpc
    rcases ahead_of_reachable hr hq with hq' | ⟨s'', hr', hstarts⟩
    · obtain ⟨s'', hr', hs''⟩ := advances_of_acquire (proper_trans h hr) hpc' hq'
      exact ⟨s'', hr.trans hr', hs''⟩
    · exact ⟨s'', hr', Or.inr hstarts⟩
  | exited => exact absurd ((alert_of_reachable h).exited _ hpc).2 hq.ne_nil

/-- The queue advances. -/
theorem advances_of_ahead (h : pg.ReachableWhere ProperCallbacks State.init s)
    (hq : s.Ahead c task (n + 1)) : s.Advances c task n := by
  by_cases hawake : ∃ i, (s.pc ⟨c, i⟩).sleeping = false
  · obtain ⟨i, hi⟩ := hawake
    exact advances_of_awake h hi hq
  · -- all workers sleep, and one is about to be notified
    obtain ⟨t, q, hf, rfl⟩ := ((alert_of_reachable h).awake c hq.ne_nil).resolve_left hawake
    push Not at hawake
    have hP : (s.pool q.client).notifyOne (some 0) =
        some ((s.pool q.client).setWorker 0 (.wait true)) :=
      if_pos (eq_true_of_ne_false (hawake 0))
    have hst : pg.step s (.notify t (some 0)) = some ((s.setPool q.client
        ((s.pool q.client).setWorker 0 (.wait true))).goto t
          (.idle (some (.status .pgSuccess)))) := by
      simp [pg_step_notify (running_of_reachable (undisturbed_of_proper h)), State.notify, hf, hP]
    have hl : Continues s (.notify t (some 0)) := rfl
    exact .head hl hst (State.Advances.of_ahead ((step_cases hst).2.ahead hq)
      (advances_of_awake (i := 0) (h.tail hl.proper hst)
        (by simp [State.setPool_pc, LoopPc.sleeping])))

/-- A task with a given number of tasks before it starts after they do. -/
theorem canReach_starts (h : pg.ReachableWhere ProperCallbacks State.init s)
    (hq : s.Ahead c task n) : s.CanReach fun s' => s'.Starts c task := by
  induction n generalizing s with
  | zero =>
    obtain ⟨_, _, -, hn⟩ := hq
    exact absurd hn (Nat.not_lt_zero _)
  | succ n ih =>
    refine (advances_of_ahead h hq).trans fun s' hr hs' => ?_
    rcases hs' with hq' | hstarts
    · exact ih (proper_trans h hr) hq'
    · exact .here hstarts

/-- **A queued task can start.** -/
theorem exists_started (h : pg.ReachableWhere ProperCallbacks State.init s)
    (hq : task ∈ (s.pool c).tasks) : s.CanReach fun s' => s'.Starts c task := by
  obtain ⟨l₁, l₂, hl⟩ := List.append_of_mem hq
  exact canReach_starts h ⟨l₁, l₂, hl, Nat.lt_succ_self _⟩

end Queue

end Comyno.Pg
