import Comyno.Pg.QueueMutex

/-!
# The mutex of the query callbacks

All clients of the process call back under one static mutex, `PGClient::mMutex`, which
`queryExchange` locks and unlocks by hand.  An exception thrown by the callback goes to the catch
block of `queryExchange`, which does not unlock it, and the worker goes on with the next task.

## Main results

* `mMutex_released_iff` : the owner of the mutex is between `lock` and `unlock` throughout a run
  exactly when no call of a callback throws in the run; and if moreover no empty callback is
  reached and callbacks destroy no client, no worker ever waits for the mutex in vain.
* `stuck_of_orphaned` : once a callback has thrown, every worker that comes to the mutex waits for
  it forever, whichever client it belongs to.
* `mMutex_stuck_by_callback` : one empty callback is enough.
-/

namespace Comyno.Pg

open Conc

/-- A worker at `k` is between `mMutex.lock()` and `mMutex.unlock()`. -/
def holdsMutex : LoopPc Execution → Bool
  | .run x => x.pc.locked
  | _ => false

/-- The mutex and its critical section. -/
def callbackLock : LockView State Worker where
  owner s := s.mMutex
  inside s w := holdsMutex (s.pc w) = true

/-- What a step of a task of the worker `w` does to the mutex. -/
def TaskAct.lockAct (w : Worker) : TaskAct → LockAct Worker
  | .lock => .acquire w
  | .unlock => .release w
  | .callbackThrow => .abandon w
  | .connector _ | .invoke | .callbackReturn => .keep

/-- What a step does to the mutex. -/
def callbackLockAct (_ : State) : Label → LockAct Worker
  | .work w (.task a) => a.lockAct w
  | .work _ (.loop _) | .call _ _ | .exec _ _ | .notify _ _ => .keep

/-- The step is not a call of a callback that throws. -/
def CallbacksReturn (_ : State) (l : Label) : Prop := ∀ w, l ≠ .work w (.task .callbackThrow)

theorem keepsLock_iff {s : State} {l : Label} :
    LockView.KeepsLock callbackLockAct s l ↔ CallbacksReturn s l := by
  unfold LockView.KeepsLock CallbacksReturn
  cases l with
  | work w a =>
    cases a with
    | loop a => simp [callbackLockAct]
    | task a => cases a <;> simp [callbackLockAct, TaskAct.lockAct]
  | _ => simp [callbackLockAct]

/-- How the steps of `queryExchange` enter and leave the critical section. -/
theorem TaskStep.holdsMutex {x : Execution} {a : TaskAct} {k : LoopPc Execution}
    (h : TaskStep x a k) (w : Worker) :
    match a.lockAct w with
    | .keep => holdsMutex k = x.pc.locked
    | .acquire _ => holdsMutex k = true
    | .release _ | .abandon _ => x.pc.locked = true ∧ holdsMutex k = false := by
  cases h
  case throw hpc =>
    cases hx : x.pc <;>
      simp_all [TaskPc.usesConnector, TaskAct.lockAct, Pg.holdsMutex, TaskPc.locked]
  all_goals simp_all [TaskAct.lockAct, Pg.holdsMutex, TaskPc.locked]

section Step

variable {s s' : State} {l : Label}

/-- Only the steps of a task take its worker into or out of the critical section. -/
theorem Step.holdsMutex_of_ne (h : Step s l s') {w : Worker} (hl : ∀ a, l ≠ .work w (.task a)) :
    holdsMutex (s'.pc w) = holdsMutex (s.pc w) := by
  have hm := h.pc_move w
  generalize s'.pc w = k at hm ⊢
  cases hm with
  | same => rfl
  | notify => cases s.pc w <;> rfl
  | loop hP => cases hP <;> simp_all [State.pc, holdsMutex, Task.start, TaskPc.locked]
  | task => exact absurd rfl (hl _)

theorem Step.mMutex_of_ne (h : Step s l s') (hl : ∀ w a, l ≠ .work w (.task a)) :
    s'.mMutex = s.mMutex := by
  cases h with
  | task => exact absurd rfl (hl _ _)
  | _ => rfl

/-- Every step acts on the mutex as its label says. -/
theorem Step.lock_move (h : Step s l s') : callbackLock.Move s s' (callbackLockAct s l) := by
  by_cases hl : ∃ w a, l = .work w (.task a)
  · obtain ⟨w, a, rfl⟩ := hl
    have hother : ∀ u, u ≠ w → (callbackLock.inside s' u ↔ callbackLock.inside s u) := by
      intro u hu
      simp only [callbackLock, h.holdsMutex_of_ne (w := u) (by simp [Ne.symm hu])]
    cases h with
    | @task _ _ last x m k hf hx hm hk =>
      have hin := hk.holdsMutex w
      have hfrom : callbackLock.inside s w ↔ x.pc.locked = true := by
        simp [callbackLock, hx, holdsMutex]
      cases a
      case lock =>
        obtain ⟨hfree, rfl⟩ : s.mMutex = none ∧ some w = m := by simpa [TaskAct.mutex] using hm
        exact .acquire_of_local hother hfree rfl
          (by simp [callbackLock, show holdsMutex k = true from hin])
      case unlock =>
        cases hm
        exact .release_of_local hother (hfrom.2 hin.1) rfl (by simp [callbackLock, hin.2])
      case callbackThrow =>
        cases hm
        exact .abandon_of_local hother (hfrom.2 hin.1) rfl (by simp [callbackLock, hin.2])
      all_goals
        cases hm
        exact .keep_of_local hother rfl
          (by rw [hfrom]; simp [callbackLock, show holdsMutex k = x.pc.locked from hin])
  · push Not at hl
    have hact : callbackLockAct s l = .keep := by
      cases l with
      | work w a =>
        cases a with
        | loop => rfl
        | task a => exact absurd rfl (hl w a)
      | _ => rfl
    rw [hact]
    exact .keep (h.mMutex_of_ne hl) fun w => by
      simp only [callbackLock, h.holdsMutex_of_ne (hl w)]

theorem callbackLock_follows :
    callbackLock.Follows pg (fun _ => True) callbackLockAct := fun _ _ _ _ hst =>
  ⟨trivial, (step_cases hst).2.lock_move⟩

end Step

theorem callbackLock_held_init : callbackLock.Held State.init := fun _ h => by cases h

theorem callbackLock_noOrphan_init : callbackLock.NoOrphan State.init := fun _ h => by cases h

/-- A worker inside the critical section owns the mutex. -/
theorem callbackLock_held {C : State → Label → Prop} {s : State}
    (h : pg.ReachableWhere C State.init s) : callbackLock.Held s :=
  callbackLock_follows.held_of_reachable h trivial callbackLock_held_init

/-! ### Waiting for the mutex -/

/-- The worker `w` is at `mMutex.lock()`. -/
def State.Waits (s : State) (w : Worker) : Prop :=
  ∃ task messages, s.pc w = .run ⟨task, .lock messages⟩

/-- A worker elsewhere in its task is another one. -/
theorem State.Waits.ne {s : State} {u w : Worker} (hw : s.Waits w) {x : Execution}
    (hpc : s.pc u = .run x) (hx : ∀ messages, x.pc ≠ .lock messages) : w ≠ u := by
  rintro rfl
  obtain ⟨task, messages, hpc'⟩ := hw
  rw [hpc] at hpc'
  cases hpc'
  exact hx messages rfl

/-- The worker `w` waits for the mutex forever, whatever happens. -/
def State.Stuck (s : State) (w : Worker) : Prop :=
  s.halted = false ∧ s.Waits w ∧ ∀ s', pg.Reachable s s' → s'.Waits w

/-- A worker that waits can only take the mutex. -/
theorem Step.waits_or_free {s s' : State} {l : Label} (h : Step s l s') {w : Worker}
    (hw : s.Waits w) : s'.Waits w ∨ s.mMutex = none := by
  obtain ⟨task, messages, hpc⟩ := hw
  by_cases hl : ∃ a, l = .work w (.task a)
  · obtain ⟨a, rfl⟩ := hl
    cases h with
    | task hf hx hm hk =>
      rw [hpc] at hx
      cases hx
      cases hk <;> simp_all [TaskAct.mutex, TaskPc.usesConnector]
  · push Not at hl
    exact Or.inl ⟨task, messages, h.pc_of_run hpc hl⟩

/-- **An orphaned mutex stops the workers of all clients.** -/
theorem stuck_of_orphaned {C : State → Label → Prop} {s : State}
    (h : pg.ReachableWhere C State.init s) (hrun : s.halted = false) {u w : Worker}
    (ho : callbackLock.Orphaned s u) (hw : s.Waits w) : s.Stuck w := by
  refine ⟨hrun, hw, fun s' h' => ?_⟩
  refine h'.invariant_of (I := fun s => callbackLock.Orphaned s u)
    (J := fun s => s.Waits w) (fun s₁ h₁ => ?_) hw ?_
  · exact callbackLock_follows.orphaned_of_reachable h₁ trivial (callbackLock_held h) ho
  · intro s₁ l s₂ ho₁ hw₁ _ hst
    rcases (step_cases hst).2.waits_or_free hw₁ with hw₂ | hfree
    · exact hw₂
    · exact absurd (hfree.symm.trans ho₁.1) (by simp)

/-! ### Runs in which nobody waits in vain -/

/-- The callback that the step is about to call is non-empty. -/
def CallbacksCallable (s : State) (l : Label) : Prop :=
  ∀ w x, l = .work w (.task .lock) → s.pc w = .run x → x.task.callback = true

/-- The step is not a callback that destroys a client. -/
def AppDestroys (_ : State) (l : Label) : Prop := ∀ w c, l ≠ .call (.worker w) (.destructor c)

/-- Callbacks return, are non-empty and destroy no client. -/
def Undisturbed (s : State) (l : Label) : Prop :=
  CallbacksReturn s l ∧ CallbacksCallable s l ∧ AppDestroys s l

/-- What holds as long as no callback is empty or destroys a client. -/
structure Callable (s : State) : Prop where
  /-- A task at the call of its callback has one. -/
  callback : ∀ w task messages, s.pc w = .run ⟨task, .call messages⟩ → task.callback = true
  /-- No worker executes `~PGClient`. -/
  frame : ∀ w pc c, s.frame (.worker w) ≠ .dtor pc c

theorem Callable.init : Callable State.init :=
  ⟨fun _ _ _ h => (by cases h), fun _ _ _ h => (by cases h)⟩

theorem Callable.step {s s' : State} {l : Label} (hs : Callable s) (hc : Undisturbed s l)
    (h : Step s l s') : Callable s' := by
  constructor
  · intro w task messages hpc
    have hm := h.pc_move w
    rw [hpc] at hm
    generalize hk : LoopPc.run (Execution.mk task (.call messages)) = k at hm
    cases hm with
    | same => exact hs.callback w task messages hk.symm
    | notify => exact hs.callback w task messages (LoopPc.notify_eq_run_iff.1 hk.symm)
    | loop hP =>
      exfalso
      cases hP <;> simp_all [State.pc, Task.start]
    | @task _ _ x _ _ hx hkk =>
      cases hkk <;> cases hk
      exact hc.2.1 w _ rfl hx
  · intro w pc c hf
    by_cases hl : l.thread = some (.worker w)
    · cases h with
      | loop | task => simp [Label.thread] at hl
      | callDestructor =>
        cases hl
        exact hc.2.2 w _ rfl
      | query hq hqs =>
        cases hl
        cases hqs <;> simp at hf
      | dtorJoinThrow => exact hs.frame w pc c hf
      | callQuery | enqueue | push | pushStopped | notifyOne | notifyNobody =>
        cases hl
        simp at hf
      | dtorLock hq | dtorStop hq | dtorNotify hq | dtorJoin hq | dtorDone hq =>
        cases hl
        exact hs.frame w _ _ hq
    · rw [h.frame_of_ne hl] at hf
      exact hs.frame w pc c hf

theorem callable_of_reachable {s : State} (h : pg.ReachableWhere Undisturbed State.init s) :
    Callable s :=
  h.invariant Callable.init fun _ _ _ hs hc hst => hs.step hc (step_cases hst).2

/-- Without destructions in callbacks no destructor comes to join its own thread. -/
theorem running_of_reachable {s : State} (h : pg.ReachableWhere Undisturbed State.init s) :
    s.halted = false := by
  refine h.invariant_of (I := Callable) (J := fun s => s.halted = false)
    (fun _ hr => callable_of_reachable hr) rfl fun s l s' hs hrun _ hst => ?_
  cases (step_cases hst).2 with
  | dtorJoinThrow hf => exact absurd hf (hs.frame _ _ _)
  | _ => exact hrun

/-- A worker outside its callback executes no operation. -/
theorem CallbackFrames.idle_of_run {s : State} (hs : CallbackFrames s) {w : Worker}
    {x : Execution} (hpc : s.pc w = .run x) (hx : ∀ messages, x.pc ≠ .callback messages) :
    ∃ last, s.frame (.worker w) = .idle last := by
  by_contra hf
  push Not at hf
  obtain ⟨task, messages, hpc'⟩ := hs w hf
  rw [hpc] at hpc'
  cases hpc'
  exact hx messages rfl

/-- A worker that executes no operation takes the steps of its task. -/
theorem pg_step_task {s : State} (hrun : s.halted = false) {w : Worker} {last : Option Result}
    {x : Execution} {a : TaskAct} {m : Option Worker} {k : LoopPc Execution}
    (hf : s.frame (.worker w) = .idle last) (hpc : s.pc w = .run x)
    (hm : a.mutex w s.mMutex = some m) (hk : x.queryExchange a = some k) :
    pg.step s (.work w (.task a)) =
      some (((s.setPc w k).setMutex m).setInvoked (s.record x a)) := by
  rw [pg_step_work hrun]
  simp [State.work, hf, hpc, hm, hk]

/-- The process goes on with what it has begun: no operation is entered, nobody wakes up for
nothing, and no callback throws. -/
def Label.continues : Label → Bool
  | .call _ _ | .work _ (.loop .wakeSpurious) | .work _ (.task .callbackThrow) => false
  | .work _ _ | .exec _ _ | .notify _ _ => true

/-- The process goes on, and of the tasks only that of `u` moves, which has passed
`mMutex.lock()`. -/
def Finishes (u : Worker) (_ : State) (l : Label) : Prop :=
  l.continues = true ∧ ∀ w a, l = .work w (.task a) → w = u ∧ a ≠ .lock

theorem Finishes.undisturbed {u : Worker} {s : State} {l : Label} (h : Finishes u s l) :
    Undisturbed s l := by
  refine ⟨?_, fun w x hl => absurd rfl (h.2 w _ hl).2, ?_⟩
  · rintro w rfl
    cases h.1
  · rintro w c rfl
    cases h.1

/-- The tasks of the other workers stay where they are. -/
theorem Finishes.pc_of_reachable {u w : Worker} {s s' : State} {x : Execution}
    (h : pg.ReachableWhere (Finishes u) s s') (hne : w ≠ u) (hpc : s.pc w = .run x) :
    s'.pc w = .run x :=
  h.invariant (I := fun s => s.pc w = .run x) hpc fun _ _ _ hs hl hst =>
    (step_cases hst).2.pc_of_run hs fun a ha => hne (hl.2 w a ha).1

/-- `u` can go on to the end of its task, where it has unlocked the mutex. -/
def State.Frees (s : State) (u : Worker) : Prop :=
  ∃ s', pg.ReachableWhere (Finishes u) s s' ∧ s'.mMutex = none ∧ s'.pc u = .acquire

theorem State.Frees.head {s s' : State} {l : Label} {u : Worker} (hl : Finishes u s l)
    (hst : pg.step s l = some s') (h : s'.Frees u) : s.Frees u := by
  obtain ⟨s'', hr, hs''⟩ := h
  exact ⟨s'', .head hl hst hr, hs''⟩

/-- `u` is in its callback, with the mutex locked. -/
structure CallsBack (s : State) (u : Worker) : Prop where
  reach : pg.ReachableWhere Undisturbed State.init s
  inCallback : s.InCallback u

section Path

variable {s s' : State} {l : Label} {u : Worker}

/-- A step outside the tasks. -/
theorem finishes_of_ne (hl : l.continues = true) (ht : ∀ w a, l ≠ .work w (.task a)) :
    Finishes u s l :=
  ⟨hl, fun w a e => absurd e (ht w a)⟩

theorem CallsBack.running (h : CallsBack s u) : s.halted = false := running_of_reachable h.reach

/-- Steps outside the tasks leave the worker in its callback. -/
theorem CallsBack.step (h : CallsBack s u) (hst : pg.step s l = some s')
    (hl : l.continues = true) (ht : ∀ w a, l ≠ .work w (.task a)) : CallsBack s' u := by
  obtain ⟨task, messages, hpc⟩ := h.inCallback
  exact ⟨h.reach.tail (finishes_of_ne (u := u) hl ht).undisturbed hst, task, messages,
    (step_cases hst).2.pc_of_run hpc (ht u)⟩

/-- The owner unlocks the mutex. -/
theorem frees_of_unlock (h : pg.ReachableWhere Undisturbed State.init s) {task : Task}
    (hpc : s.pc u = .run ⟨task, .unlock⟩) : s.Frees u := by
  obtain ⟨last, hf⟩ := (callbackFrames_of_reachable h).idle_of_run hpc (by simp)
  have hst := pg_step_task (running_of_reachable h) (a := .unlock) hf hpc rfl rfl
  exact ⟨_, .head ⟨rfl, by simp⟩ hst (.refl _), rfl, by simp⟩

/-- The callback returns. -/
theorem CallsBack.frees_of_idle (h : CallsBack s u) {last : Option Result}
    (hf : s.frame (.worker u) = .idle last) : s.Frees u := by
  obtain ⟨task, messages, hpc⟩ := h.inCallback
  have hst := pg_step_task h.running (a := .callbackReturn) hf hpc rfl rfl
  have hl : Finishes u s (.work u (.task .callbackReturn)) := ⟨rfl, by simp⟩
  exact .head hl hst
    (frees_of_unlock (h.reach.tail hl.undisturbed hst) (State.setPc_pc_self s u _))

/-- The callback is at the end of `pgMessageQuery`. -/
theorem CallsBack.frees_of_notify (h : CallsBack s u) {q : Query}
    (hf : s.frame (.worker u) = .query .notify q) : s.Frees u := by
  obtain ⟨i, P, hP⟩ := ThreadPool.exists_notifyOne (s.pool q.client)
  have hst : pg.step s (.notify (.worker u) i) = some ((s.setPool q.client P).goto (.worker u)
      (.idle (some (.status .pgSuccess)))) := by
    simp [pg_step_notify h.running, State.notify, hf, hP]
  exact .head (finishes_of_ne rfl (by simp)) hst
    ((h.step hst rfl (by simp)).frees_of_idle (State.goto_frame_self ..))

/-- The callback is about to queue its task. -/
theorem CallsBack.frees_of_push (h : CallsBack s u) {task : Task} {q : Query}
    (hf : s.frame (.worker u) = .query (.push task) q) : s.Frees u := by
  cases hP : (s.pool q.client).enqueue task with
  | some P =>
    have hst : pg.step s (.exec (.worker u) .ok) = some ((s.setPool q.client P.unlock).goto
        (.worker u) (.query .notify q)) := by
      simp [pg_step_exec h.running, State.exec, hf, State.pgMessageQuery, hP]
    exact .head (finishes_of_ne rfl (by simp)) hst
      ((h.step hst rfl (by simp)).frees_of_notify (State.goto_frame_self ..))
  | none =>
    have hst : pg.step s (.exec (.worker u) .ok) = some ((s.setPool q.client
        (s.pool q.client).unlock).goto (.worker u) (.idle (some (.status .pgError)))) := by
      simp [pg_step_exec h.running, State.exec, hf, State.pgMessageQuery, hP]
    exact .head (finishes_of_ne rfl (by simp)) hst
      ((h.step hst rfl (by simp)).frees_of_idle (State.goto_frame_self ..))

/-- The callback locks a queue mutex that is free. -/
theorem CallsBack.frees_of_queue_free (h : CallsBack s u) {task : Task} {q : Query}
    (hf : s.frame (.worker u) = .query (.enqueue task) q)
    (hfree : (s.pool q.client).queueMutex = none) : s.Frees u := by
  have hlock := (ThreadPool.lock_eq_some_iff (t := Thread.worker u)).2 ⟨hfree, rfl⟩
  have hst : pg.step s (.exec (.worker u) .ok) = some ((s.setPool q.client
      { s.pool q.client with queueMutex := some (.worker u) }).goto (.worker u)
        (.query (.push task) q)) := by
    simp [pg_step_exec h.running, State.exec, hf, State.pgMessageQuery, hlock]
  exact .head (finishes_of_ne rfl (by simp)) hst
    ((h.step hst rfl (by simp)).frees_of_push (State.goto_frame_self ..))

/-- The callback waits for a queue mutex, whose holder releases it. -/
theorem CallsBack.frees_of_enqueue (h : CallsBack s u) {task : Task} {q : Query}
    (hf : s.frame (.worker u) = .query (.enqueue task) q) : s.Frees u := by
  by_cases hfree : (s.pool q.client).queueMutex = none
  · exact h.frees_of_queue_free hf hfree
  · obtain ⟨l, s', hl, hst, hfree', -, -⟩ := exists_release h.reach h.running hfree
    have hout : l.thread ≠ some (.worker u) := by
      rcases hl with ⟨w, rfl⟩ | ⟨t, rfl, ht⟩
      · simp [Label.thread]
      · rintro ⟨⟩
        rw [hf] at ht
        cases ht
    have hl' : l.continues = true ∧ ∀ w a, l ≠ .work w (.task a) := by
      rcases hl with ⟨w, rfl⟩ | ⟨t, rfl, -⟩ <;> exact ⟨rfl, by simp⟩
    have hf' := ((step_cases hst).2.frame_of_ne hout).trans hf
    exact .head (finishes_of_ne hl'.1 hl'.2) hst
      ((h.step hst hl'.1 hl'.2).frees_of_queue_free hf' hfree')

/-- The callback is in `pgMessageQuery`. -/
theorem CallsBack.frees_of_query (h : CallsBack s u) {pc : QueryPc} {q : Query}
    (hf : s.frame (.worker u) = .query pc q) : s.Frees u := by
  by_cases hpc : pc.usesConnector = true
  · -- the call of the connector may throw
    have hst : pg.step s (.exec (.worker u) .throw) = some (s.goto (.worker u)
        (.idle (some (.status .pgError)))) := by
      simp only [pg_step_exec h.running, State.exec, hf, State.pgMessageQuery_throw s _ q hpc]
    exact .head (finishes_of_ne rfl (by simp)) hst
      ((h.step hst rfl (by simp)).frees_of_idle (State.goto_frame_self ..))
  · cases pc with
    | enqueue task => exact h.frees_of_enqueue hf
    | push task => exact h.frees_of_push hf
    | notify => exact h.frees_of_notify hf
    | _ => exact absurd rfl hpc

theorem CallsBack.frees (h : CallsBack s u) : s.Frees u := by
  cases hf : s.frame (.worker u) with
  | idle last => exact h.frees_of_idle hf
  | query pc q => exact h.frees_of_query hf
  | dtor pc c => exact absurd hf ((callable_of_reachable h.reach).frame u pc c)

/-- The callback is called. -/
theorem frees_of_call (h : pg.ReachableWhere Undisturbed State.init s) {task : Task}
    {messages : List Message} (hpc : s.pc u = .run ⟨task, .call messages⟩) : s.Frees u := by
  obtain ⟨last, hf⟩ := (callbackFrames_of_reachable h).idle_of_run hpc (by simp)
  have hcb := (callable_of_reachable h).callback u task messages hpc
  have hst := pg_step_task (running_of_reachable h) (a := .invoke) hf hpc rfl (if_pos hcb)
  have hl : Finishes u s (.work u (.task .invoke)) := ⟨rfl, by simp⟩
  exact .head hl hst
    (CallsBack.frees ⟨h.tail hl.undisturbed hst, task, messages, State.setPc_pc_self s u _⟩)

/-- **A worker that has the mutex can go on to unlock it**, whatever its callback does. -/
theorem frees_of_holdsMutex (h : pg.ReachableWhere Undisturbed State.init s)
    (hin : holdsMutex (s.pc u) = true) : s.Frees u := by
  cases hpc : s.pc u with
  | run x =>
    obtain ⟨task, pc⟩ := x
    cases pc with
    | call messages => exact frees_of_call h hpc
    | callback messages => exact CallsBack.frees ⟨h, task, messages, hpc⟩
    | unlock => exact frees_of_unlock h hpc
    | _ => simp [hpc, holdsMutex, TaskPc.locked] at hin
  | _ => simp [hpc, holdsMutex] at hin

/-- A worker takes a mutex that is free. -/
theorem exists_lock (h : pg.ReachableWhere Undisturbed State.init s) {task : Task}
    {messages : List Message} (hpc : s.pc u = .run ⟨task, .lock messages⟩)
    (hfree : s.mMutex = none) : ∃ s', pg.step s (.work u (.task .lock)) = some s' ∧
      s'.pc u = .run ⟨task, .call messages⟩ := by
  obtain ⟨last, hf⟩ := (callbackFrames_of_reachable h).idle_of_run hpc (by simp)
  have hst := pg_step_task (running_of_reachable h) (a := .lock) hf hpc (if_pos hfree) rfl
  exact ⟨_, hst, by simp⟩

end Path

/-- The owner of the mutex is between `lock` and `unlock`, and so can go on to unlock it. -/
theorem frees_of_owner {s : State} (h : pg.ReachableWhere Undisturbed State.init s) {u : Worker}
    (hown : s.mMutex = some u) : s.Frees u :=
  frees_of_holdsMutex h <| callbackLock_follows.noOrphan_of_reachable
    (fun _ _ hc => keepsLock_iff.2 hc.1) h trivial callbackLock_noOrphan_init u hown

/-- **Nobody waits for the mutex in vain.** -/
theorem not_stuck_of_reachable {s : State} (h : pg.ReachableWhere Undisturbed State.init s)
    (w : Worker) : ¬ s.Stuck w := by
  rintro ⟨-, -, hstuck⟩
  -- the mutex becomes free while the worker waits
  have hfree : ∃ s', pg.ReachableWhere Undisturbed s s' ∧ s'.mMutex = none := by
    cases howner : s.mMutex with
    | none => exact ⟨s, .refl s, howner⟩
    | some u =>
      obtain ⟨s', hr, hfree, -⟩ := frees_of_owner h howner
      exact ⟨s', hr.mono fun _ _ hl => hl.undisturbed, hfree⟩
  obtain ⟨s', hr, hfree⟩ := hfree
  have hr' : pg.Reachable s s' := hr.mono fun _ _ _ => trivial
  obtain ⟨task, messages, hpc⟩ := hstuck s' hr'
  obtain ⟨s'', hst, hpc'⟩ := exists_lock (h.trans hr) hpc hfree
  obtain ⟨task', messages', hw⟩ := hstuck s'' (hr'.tail trivial hst)
  rw [hpc'] at hw
  cases hw

/-- **The mutex of the query callbacks.**  It is never orphaned in a run exactly when no call of
a callback throws in the run.  If moreover no task comes to call an empty callback and callbacks
destroy no client, no worker ever waits for it forever. -/
theorem mMutex_released_iff (ls : List Label) :
    (pg.Always callbackLock.NoOrphan State.init ls ↔ pg.AllSteps CallbacksReturn State.init ls) ∧
      (pg.AllSteps Undisturbed State.init ls →
        pg.Always (fun s => ∀ w, ¬ s.Stuck w) State.init ls) := by
  constructor
  · rw [callbackLock_follows.always_noOrphan_iff trivial callbackLock_held_init
      callbackLock_noOrphan_init]
    simp only [funext fun s => funext fun l => propext (@keepsLock_iff s l)]
  · exact Machine.always_of_reachableWhere fun s h => not_stuck_of_reachable h

/-- A query with an empty callback on one client, then a query and the destruction of another
client. -/
def emptyCallbackLabels : List Label :=
  queryLabels 0 0 false ++ fetchLabels ⟨0, 0⟩ [] ++
    [.work ⟨0, 0⟩ (.task .lock), .work ⟨0, 0⟩ (.task .callbackThrow)] ++
    queryLabels 0 1 true ++ fetchLabels ⟨1, 0⟩ [] ++
    [.call (.app 0) (.destructor 1), .exec (.app 0) .ok, .exec (.app 0) .ok, .exec (.app 0) .ok]

/-- One empty callback orphans the mutex, and a worker of another client, which `~PGClient` waits
for, never gets past it. -/
theorem mMutex_stuck_by_callback :
    (¬ ∀ s, pg.Reachable State.init s → callbackLock.NoOrphan s) ∧
      ¬ ∀ s, pg.Reachable State.init s → ∀ t c todo i, s.frame t = .dtor (.join todo) c →
        i ∈ todo → ¬ s.Stuck ⟨c, i⟩ := by
  have hrun : ∃ s, pg.run State.init emptyCallbackLabels = some s ∧ s.halted = false ∧
      s.mMutex = some ⟨0, 0⟩ ∧ s.pc ⟨0, 0⟩ = .acquire ∧
      s.pc ⟨1, 0⟩ = .run ⟨⟨1, -1, true⟩, .lock []⟩ ∧
      s.frame (.app 0) = .dtor (.join (List.finRange poolSize)) 1 :=
    ⟨_, rfl, rfl, rfl, rfl, rfl, rfl⟩
  obtain ⟨s, hs, hhalted, hown, hpc, hpc', hf⟩ := hrun
  have hr : pg.Reachable State.init s := Machine.reachable_of_run hs
  have ho : callbackLock.Orphaned s ⟨0, 0⟩ := ⟨hown, by simp [callbackLock, hpc, holdsMutex]⟩
  constructor
  · intro h
    exact ho.2 (h s hr _ hown)
  · intro h
    exact h s hr _ _ _ 0 hf (List.mem_finRange 0) (stuck_of_orphaned hr hhalted ho ⟨_, _, hpc'⟩)

end Comyno.Pg
