import Comyno.Pg.Client

/-!
# What one step of the database client does

`Step s l s'` lists the steps of the machine `pg`, one constructor for each program point and
outcome; the steps of a task and of a call of `pgMessageQuery` that concern nothing else are
listed in `TaskStep` and `QueryStep`.  `step_cases` says that the list is complete.

For the parts of the state there are shorter lists: `Step.frame_of_ne` says that a step changes no
frame but that of the thread that takes it; `PcMove` and `TasksMove` list what a step does to a
worker and to a queue.
`CallbackFrames` is the invariant that a worker executes an operation only from its callback.
-/

namespace Comyno.Pg

namespace State

variable (s : State)

@[simp] theorem goto_mMutex (t : Thread) (f : Frame) : (s.goto t f).mMutex = s.mMutex := rfl
@[simp] theorem goto_client (t : Thread) (f : Frame) : (s.goto t f).client = s.client := rfl
@[simp] theorem goto_pool (t : Thread) (f : Frame) : (s.goto t f).pool = s.pool := rfl
@[simp] theorem goto_pc (t : Thread) (f : Frame) : (s.goto t f).pc = s.pc := rfl
@[simp] theorem goto_halted (t : Thread) (f : Frame) : (s.goto t f).halted = s.halted := rfl

@[simp] theorem goto_frame (t u : Thread) (f : Frame) :
    (s.goto t f).frame u = if u = t then f else s.frame u := Function.update_apply ..

theorem goto_frame_self (t : Thread) (f : Frame) : (s.goto t f).frame t = f := by simp

@[simp] theorem setClient_mMutex (c : ClientId) (K : Client) :
    (s.setClient c K).mMutex = s.mMutex := rfl
@[simp] theorem setClient_frame (c : ClientId) (K : Client) :
    (s.setClient c K).frame = s.frame := rfl
@[simp] theorem setClient_halted (c : ClientId) (K : Client) :
    (s.setClient c K).halted = s.halted := rfl

@[simp] theorem setClient_client (c d : ClientId) (K : Client) :
    (s.setClient c K).client d = if d = c then K else s.client d := Function.update_apply ..

@[simp] theorem setClient_pool (c d : ClientId) (K : Client) :
    (s.setClient c K).pool d = if d = c then K.mPool else s.pool d := by
  simp only [pool, setClient_client]
  split <;> rfl

/-- A client that keeps its pool keeps its workers. -/
theorem setClient_pc {c : ClientId} {K : Client} (h : K.mPool = s.pool c) :
    (s.setClient c K).pc = s.pc := by
  funext w
  by_cases hc : w.client = c <;> simp [pc, hc, h]

@[simp] theorem setPool_mMutex (c : ClientId) (P : Pool) : (s.setPool c P).mMutex = s.mMutex := rfl
@[simp] theorem setPool_frame (c : ClientId) (P : Pool) : (s.setPool c P).frame = s.frame := rfl
@[simp] theorem setPool_halted (c : ClientId) (P : Pool) : (s.setPool c P).halted = s.halted := rfl

@[simp] theorem setPool_pool (c d : ClientId) (P : Pool) :
    (s.setPool c P).pool d = if d = c then P else s.pool d := by
  simp [setPool]

@[simp] theorem setPool_mPGConnector (c d : ClientId) (P : Pool) :
    ((s.setPool c P).client d).mPGConnector = (s.client d).mPGConnector := by
  by_cases h : d = c <;> simp [setPool, h]

@[simp] theorem setPool_mDatabase (c d : ClientId) (P : Pool) :
    ((s.setPool c P).client d).mDatabase = (s.client d).mDatabase := by
  by_cases h : d = c <;> simp [setPool, h]

theorem setPool_pc (c : ClientId) (P : Pool) (w : Worker) :
    (s.setPool c P).pc w = if w.client = c then P.workers w.index else s.pc w := by
  by_cases h : w.client = c <;> simp [pc, h]

/-- A pool whose workers stay where they are. -/
theorem setPool_pc_of_workers {c : ClientId} {P : Pool} (h : P.workers = (s.pool c).workers) :
    (s.setPool c P).pc = s.pc := by
  funext w
  rw [setPool_pc]
  split <;> simp_all [pc]

@[simp] theorem setPc_mMutex (w : Worker) (k : LoopPc Execution) :
    (s.setPc w k).mMutex = s.mMutex := rfl
@[simp] theorem setPc_frame (w : Worker) (k : LoopPc Execution) :
    (s.setPc w k).frame = s.frame := rfl
@[simp] theorem setPc_halted (w : Worker) (k : LoopPc Execution) :
    (s.setPc w k).halted = s.halted := rfl

@[simp] theorem setPc_mPGConnector (w : Worker) (k : LoopPc Execution) (d : ClientId) :
    ((s.setPc w k).client d).mPGConnector = (s.client d).mPGConnector :=
  setPool_mPGConnector ..

@[simp] theorem setPc_mDatabase (w : Worker) (k : LoopPc Execution) (d : ClientId) :
    ((s.setPc w k).client d).mDatabase = (s.client d).mDatabase :=
  setPool_mDatabase ..

@[simp] theorem setPc_queueMutex (w : Worker) (k : LoopPc Execution) (d : ClientId) :
    ((s.setPc w k).pool d).queueMutex = (s.pool d).queueMutex := by
  by_cases h : d = w.client <;> simp [setPc, h]

@[simp] theorem setPc_tasks (w : Worker) (k : LoopPc Execution) (d : ClientId) :
    ((s.setPc w k).pool d).tasks = (s.pool d).tasks := by
  by_cases h : d = w.client <;> simp [setPc, h]

@[simp] theorem setPc_pc (w v : Worker) (k : LoopPc Execution) :
    (s.setPc w k).pc v = if v = w then k else s.pc v := by
  obtain ⟨c, i⟩ := w
  obtain ⟨d, j⟩ := v
  by_cases hd : d = c <;> by_cases hj : j = i <;> simp [setPc, pc, hd, hj]

theorem setPc_pc_self (w : Worker) (k : LoopPc Execution) : (s.setPc w k).pc w = k := by simp

section Rest

variable (m : Option Worker) (i : List (ℕ × List Message))

@[simp] theorem setMutex_mMutex : (s.setMutex m).mMutex = m := rfl
@[simp] theorem setMutex_client : (s.setMutex m).client = s.client := rfl
@[simp] theorem setMutex_pool : (s.setMutex m).pool = s.pool := rfl
@[simp] theorem setMutex_pc : (s.setMutex m).pc = s.pc := rfl
@[simp] theorem setMutex_frame : (s.setMutex m).frame = s.frame := rfl
@[simp] theorem setMutex_halted : (s.setMutex m).halted = s.halted := rfl

@[simp] theorem setInvoked_mMutex : (s.setInvoked i).mMutex = s.mMutex := rfl
@[simp] theorem setInvoked_client : (s.setInvoked i).client = s.client := rfl
@[simp] theorem setInvoked_pool : (s.setInvoked i).pool = s.pool := rfl
@[simp] theorem setInvoked_pc : (s.setInvoked i).pc = s.pc := rfl
@[simp] theorem setInvoked_frame : (s.setInvoked i).frame = s.frame := rfl
@[simp] theorem setInvoked_halted : (s.setInvoked i).halted = s.halted := rfl

@[simp] theorem tick_mMutex : s.tick.mMutex = s.mMutex := rfl
@[simp] theorem tick_client : s.tick.client = s.client := rfl
@[simp] theorem tick_pool : s.tick.pool = s.pool := rfl
@[simp] theorem tick_pc : s.tick.pc = s.pc := rfl
@[simp] theorem tick_frame : s.tick.frame = s.frame := rfl
@[simp] theorem tick_halted : s.tick.halted = s.halted := rfl

@[simp] theorem terminate_mMutex : s.terminate.mMutex = s.mMutex := rfl
@[simp] theorem terminate_client : s.terminate.client = s.client := rfl
@[simp] theorem terminate_pool : s.terminate.pool = s.pool := rfl
@[simp] theorem terminate_pc : s.terminate.pc = s.pc := rfl
@[simp] theorem terminate_frame : s.terminate.frame = s.frame := rfl

end Rest

end State

/-- The steps of `queryExchange`, one constructor for each program point and outcome. -/
inductive TaskStep (x : Execution) : TaskAct → LoopPc Execution → Prop
  | openConnection : x.pc = .openConnection →
      TaskStep x (.connector .ok) (.run { x with pc := .createTransaction })
  | createTransaction : x.pc = .createTransaction →
      TaskStep x (.connector .ok) (.run { x with pc := .prepareStatement })
  | prepareStatement : x.pc = .prepareStatement →
      TaskStep x (.connector .ok) (.run { x with pc := .executePrepared })
  | executePrepared : x.pc = .executePrepared →
      TaskStep x (.connector .ok) (.run { x with pc := .executeQuery })
  | executeQuery {r : List Message} : x.pc = .executeQuery →
      TaskStep x (.connector (.messages r)) (.run { x with pc := .resultGetAll r })
  | resultGetAll {r : List Message} : x.pc = .resultGetAll r →
      TaskStep x (.connector .ok) (.run { x with pc := .lock r })
  | throw : x.pc.usesConnector = true → TaskStep x (.connector .throw) .acquire
  | lock {r : List Message} : x.pc = .lock r → TaskStep x .lock (.run { x with pc := .call r })
  | invoke {r : List Message} : x.pc = .call r → x.task.callback = true →
      TaskStep x .invoke (.run { x with pc := .callback r })
  | callThrow {r : List Message} : x.pc = .call r → TaskStep x .callbackThrow .acquire
  | callbackReturn {r : List Message} : x.pc = .callback r →
      TaskStep x .callbackReturn (.run { x with pc := .unlock })
  | callbackThrow {r : List Message} : x.pc = .callback r → TaskStep x .callbackThrow .acquire
  | unlock : x.pc = .unlock → TaskStep x .unlock .acquire

/-- **The list of steps of a task is complete.** -/
theorem Execution.queryExchange_cases {x : Execution} {a : TaskAct} {k : LoopPc Execution}
    (h : x.queryExchange a = some k) : TaskStep x a k := by
  unfold queryExchange at h
  split at h
  case h_1 hpc => cases h; exact .openConnection hpc
  case h_2 hpc => cases h; exact .createTransaction hpc
  case h_3 hpc => cases h; exact .prepareStatement hpc
  case h_4 hpc => cases h; exact .executePrepared hpc
  case h_5 hpc => cases h; exact .executeQuery hpc
  case h_6 hpc => cases h; exact .resultGetAll hpc
  case h_7 hpc => cases h; exact .lock hpc
  case h_8 hpc =>
    split at h <;> cases h
    exact .invoke hpc ‹_›
  case h_9 hpc => cases h; exact .callThrow hpc
  case h_10 hpc => cases h; exact .callbackReturn hpc
  case h_11 hpc => cases h; exact .callbackThrow hpc
  case h_12 hpc => cases h; exact .unlock hpc
  case h_13 =>
    split at h <;> cases h
    exact .throw ‹_›
  case h_14 => cases h

/-- The steps of `pgMessageQuery` up to `enqueue`. -/
inductive QueryStep (q : Query) : QueryPc → Outcome → Frame → Prop
  | openConnection : QueryStep q .openConnection .ok (.query .createTransaction q)
  | createTransaction : q.exchange ≠ "" →
      QueryStep q .createTransaction .ok (.query .quoteString q)
  | createTransactionAll : q.exchange = "" →
      QueryStep q .createTransaction .ok (.query (.enqueue ⟨q.ticket, -1, q.callback⟩) q)
  | quoteString {str : String} : QueryStep q .quoteString (.quoted str) (.query
      (.executeQuery ("SELECT ID FROM Exchanges WHERE exchange_name = " ++ str)) q)
  | executeQuery {query : String} {r : List ℤ} :
      QueryStep q (.executeQuery query) (.ids r) (.query (.resultIsEmpty r) q)
  | resultIsEmpty : QueryStep q (.resultIsEmpty []) .ok (.idle (some (.status .pgError)))
  | resultIsNotEmpty {r : List ℤ} : r ≠ [] →
      QueryStep q (.resultIsEmpty r) .ok (.query (.resultGetFirstInt r) q)
  | resultGetFirstInt {exchangeID : ℤ} {r : List ℤ} :
      QueryStep q (.resultGetFirstInt (exchangeID :: r)) .ok
        (.query (.enqueue ⟨q.ticket, exchangeID, q.callback⟩) q)
  | throw {pc : QueryPc} : pc.usesConnector = true →
      QueryStep q pc .throw (.idle (some (.status .pgError)))

theorem QueryStep.usesConnector {q : Query} {pc : QueryPc} {x : Outcome} {f : Frame}
    (h : QueryStep q pc x f) : pc.usesConnector = true := by
  cases h <;> first | rfl | assumption

/-- The steps of the machine. -/
inductive Step (s : State) : Label → State → Prop
  | loop {w : Worker} {a : LoopAct} {P : Pool} :
      LoopStep (s.pool w.client) (Thread.worker w) w.index Task.start a P →
      Step s (.work w (.loop a)) (s.setPool w.client P)
  | task {w : Worker} {a : TaskAct} {last : Option Result} {x : Execution}
      {mMutex : Option Worker} {k : LoopPc Execution} : s.frame (.worker w) = .idle last →
      s.pc w = .run x → a.mutex w s.mMutex = some mMutex → TaskStep x a k →
      Step s (.work w (.task a)) (((s.setPc w k).setMutex mMutex).setInvoked (s.record x a))
  -- an operation is entered
  | callQuery {t : Thread} {c : ClientId} {callback : Bool} {exchange : String} :
      s.ready t = true → Step s (.call t (.pgMessageQuery c callback exchange))
        (s.goto t (.query .openConnection ⟨s.next, c, callback, exchange⟩)).tick
  | callDestructor {t : Thread} {c : ClientId} : s.ready t = true →
      Step s (.call t (.destructor c))
        ((s.setClient c { s.client c with mPGConnector := false }).goto t (.dtor .lock c))
  -- `pgMessageQuery`
  | query {t : Thread} {pc : QueryPc} {q : Query} {x : Outcome} {f : Frame} :
      s.frame t = .query pc q → QueryStep q pc x f → Step s (.exec t x) (s.goto t f)
  | enqueue {t : Thread} {task : Task} {q : Query} : s.frame t = .query (.enqueue task) q →
      (s.pool q.client).queueMutex = none →
      Step s (.exec t .ok) ((s.setPool q.client
        { s.pool q.client with queueMutex := some t }).goto t (.query (.push task) q))
  | push {t : Thread} {task : Task} {q : Query} : s.frame t = .query (.push task) q →
      (s.pool q.client).stop = false →
      Step s (.exec t .ok) ((s.setPool q.client
        { s.pool q.client with tasks := (s.pool q.client).tasks ++ [task] }.unlock).goto t
          (.query .notify q))
  | pushStopped {t : Thread} {task : Task} {q : Query} : s.frame t = .query (.push task) q →
      (s.pool q.client).stop = true →
      Step s (.exec t .ok) ((s.setPool q.client (s.pool q.client).unlock).goto t
        (.idle (some (.status .pgError))))
  | notifyOne {t : Thread} {q : Query} {i : Fin poolSize} : s.frame t = .query .notify q →
      ((s.pool q.client).workers i).sleeping = true →
      Step s (.notify t (some i)) ((s.setPool q.client
        ((s.pool q.client).setWorker i (.wait true))).goto t (.idle (some (.status .pgSuccess))))
  | notifyNobody {t : Thread} {q : Query} : s.frame t = .query .notify q →
      (∀ i, ((s.pool q.client).workers i).sleeping = false) →
      Step s (.notify t none) ((s.setPool q.client (s.pool q.client)).goto t
        (.idle (some (.status .pgSuccess))))
  -- `~PGClient`
  | dtorLock {t : Thread} {c : ClientId} : s.frame t = .dtor .lock c →
      (s.pool c).queueMutex = none →
      Step s (.exec t .ok) ((s.setPool c { s.pool c with queueMutex := some t }).goto t
        (.dtor .stop c))
  | dtorStop {t : Thread} {c : ClientId} : s.frame t = .dtor .stop c →
      Step s (.exec t .ok) ((s.setPool c { (s.pool c).unlock with stop := true }).goto t
        (.dtor .notify c))
  | dtorNotify {t : Thread} {c : ClientId} : s.frame t = .dtor .notify c →
      Step s (.exec t .ok) ((s.setPool c (s.pool c).notifyAll).goto t
        (.dtor (.join (List.finRange poolSize)) c))
  | dtorJoin {t : Thread} {c : ClientId} {i : Fin poolSize} {todo : List (Fin poolSize)} :
      s.frame t = .dtor (.join (i :: todo)) c → s.pc ⟨c, i⟩ = .exited →
      Step s (.exec t .ok) (s.goto t (.dtor (.join todo) c))
  | dtorJoinThrow {c : ClientId} {i : Fin poolSize} {todo : List (Fin poolSize)} :
      s.frame (.worker ⟨c, i⟩) = .dtor (.join (i :: todo)) c →
      Step s (.exec (.worker ⟨c, i⟩) .ok) s.terminate
  | dtorDone {t : Thread} {c : ClientId} : s.frame t = .dtor (.join []) c →
      Step s (.exec t .ok) ((s.setClient c { s.client c with mDatabase := false }).goto t
        (.idle (some .destroyed)))

namespace Step

variable {s s' : State}

theorem of_work {w : Worker} {a : WorkerAct} (h : s.work w a = some s') :
    Step s (.work w a) s' := by
  cases a with
  | loop a =>
    obtain ⟨P, hP, rfl⟩ := Option.map_eq_some_iff.1 h
    exact .loop (ThreadPool.loop_cases hP)
  | task a =>
    simp only [State.work] at h
    split at h
    · rename_i hf hx
      split at h
      · rename_i hm hk
        cases h
        exact .task hf hx hm (Execution.queryExchange_cases hk)
      · cases h
    · cases h

theorem of_call {t : Thread} {c : Operation} (hr : s.ready t = true) :
    Step s (.call t c) (s.call t c) := by
  cases c with
  | pgMessageQuery c callback exchange => exact .callQuery hr
  | destructor c => exact .callDestructor hr

theorem of_pgMessageQuery {t : Thread} {q : Query} {pc : QueryPc} {x : Outcome}
    (hf : s.frame t = .query pc q) (h : s.pgMessageQuery t q pc x = some s') :
    Step s (.exec t x) s' := by
  unfold State.pgMessageQuery at h
  split at h
  case h_1 => cases h; exact .query hf .openConnection
  case h_2 =>
    split at h <;> cases h
    · exact .query hf (.createTransaction ‹_›)
    · exact .query hf (.createTransactionAll (not_not.1 ‹_›))
  case h_3 => cases h; exact .query hf .quoteString
  case h_4 => cases h; exact .query hf .executeQuery
  case h_5 =>
    split at h <;> cases h
    · rename_i hr
      subst hr
      exact .query hf .resultIsEmpty
    · exact .query hf (.resultIsNotEmpty ‹_›)
  case h_6 => cases h; exact .query hf .resultGetFirstInt
  case h_7 =>
    obtain ⟨P, hlock, rfl⟩ := Option.map_eq_some_iff.1 h
    obtain ⟨hfree, rfl⟩ := ThreadPool.lock_eq_some_iff.1 hlock
    exact .enqueue hf hfree
  case h_8 =>
    split at h <;> cases h
    · rename_i hP
      obtain ⟨hs, rfl⟩ := ThreadPool.enqueue_eq_some_iff.1 hP
      exact .push hf hs
    · exact .pushStopped hf (ThreadPool.enqueue_eq_none_iff.1 ‹_›)
  case h_9 =>
    split at h <;> cases h
    exact .query hf (.throw ‹_›)
  case h_10 => cases h

theorem of_destroyClient {t : Thread} {c : ClientId} {pc : DtorPc} (hf : s.frame t = .dtor pc c)
    (h : s.destroyClient t c pc = some s') : Step s (.exec t .ok) s' := by
  unfold State.destroyClient at h
  split at h
  case h_1 =>
    obtain ⟨P, hlock, rfl⟩ := Option.map_eq_some_iff.1 h
    obtain ⟨hfree, rfl⟩ := ThreadPool.lock_eq_some_iff.1 hlock
    exact .dtorLock hf hfree
  case h_2 => cases h; exact .dtorStop hf
  case h_3 => cases h; exact .dtorNotify hf
  case h_4 =>
    split at h
    · rename_i ht
      cases h
      subst ht
      exact .dtorJoinThrow hf
    · split at h <;> cases h
      exact .dtorJoin hf ‹_›
  case h_5 => cases h; exact .dtorDone hf

theorem of_exec {t : Thread} {x : Outcome} (h : s.exec t x = some s') : Step s (.exec t x) s' := by
  unfold State.exec at h
  split at h
  case h_1 hf => exact of_pgMessageQuery hf h
  case h_2 hf => exact of_destroyClient hf h
  case h_3 => cases h

theorem of_notify {t : Thread} {i : Option (Fin poolSize)} (h : s.notify t i = some s') :
    Step s (.notify t i) s' := by
  unfold State.notify at h
  split at h
  case h_1 q hf =>
    obtain ⟨P, hP, rfl⟩ := Option.map_eq_some_iff.1 h
    cases i with
    | some i =>
      simp only [ThreadPool.notifyOne] at hP
      split at hP <;> cases hP
      exact .notifyOne hf ‹_›
    | none =>
      simp only [ThreadPool.notifyOne] at hP
      split at hP <;> cases hP
      exact .notifyNobody hf ‹_›
  case h_2 => cases h

end Step

/-- A call of the connector may throw, and `pgMessageQuery` catches the exception. -/
theorem State.pgMessageQuery_throw (s : State) (t : Thread) (q : Query) {pc : QueryPc}
    (h : pc.usesConnector = true) :
    s.pgMessageQuery t q pc .throw = some (s.goto t (.idle (some (.status .pgError)))) := by
  cases pc with
  | resultGetFirstInt r => cases r <;> rfl
  | enqueue | push | notify => cases h
  | _ => rfl

section Run

/-! A process that has not called `std::terminate` takes the steps of its threads. -/

variable {s : State} (h : s.halted = false)
include h

theorem pg_step_work (w : Worker) (a : WorkerAct) : pg.step s (.work w a) = s.work w a := by
  simp [pg, State.step, h]

theorem pg_step_exec (t : Thread) (x : Outcome) : pg.step s (.exec t x) = s.exec t x := by
  simp [pg, State.step, h]

theorem pg_step_notify (t : Thread) (i : Option (Fin poolSize)) :
    pg.step s (.notify t i) = s.notify t i := by
  simp [pg, State.step, h]

end Run

/-- **The list of steps is complete.** -/
theorem step_cases {s s' : State} {l : Label} (h : pg.step s l = some s') :
    s.halted = false ∧ Step s l s' := by
  change s.step l = some s' at h
  unfold State.step at h
  split at h
  · cases h
  · rename_i hh
    refine ⟨eq_false_of_ne_true hh, ?_⟩
    cases l with
    | work w a => exact Step.of_work h
    | call t c =>
      simp only at h
      split at h <;> cases h
      exact Step.of_call ‹_›
    | exec t x => exact Step.of_exec h
    | notify t i => exact Step.of_notify h

/-! ### Frames -/

/-- The thread that takes the step, if it is not a step of a worker's loop or task. -/
def Label.thread : Label → Option Thread
  | .call t _ | .exec t _ | .notify t _ => some t
  | .work _ _ => none

/-- What a step does to the worker `w`. -/
inductive PcMove (s : State) (w : Worker) : Label → LoopPc Execution → Prop
  | same {l : Label} : PcMove s w l (s.pc w)
  | notify {l : Label} : PcMove s w l (s.pc w).notify
  | loop {a : LoopAct} {P : Pool} :
      LoopStep (s.pool w.client) (Thread.worker w) w.index Task.start a P →
      PcMove s w (.work w (.loop a)) (P.workers w.index)
  | task {a : TaskAct} {last : Option Result} {x : Execution} {k : LoopPc Execution} :
      s.frame (.worker w) = .idle last → s.pc w = .run x → TaskStep x a k →
      PcMove s w (.work w (.task a)) k

/-- What a step from `s` to `s'` does to the queue of the client `c`.  The last index is the queue
after the step. -/
inductive TasksMove (s s' : State) (c : ClientId) : Label → List Task → Prop
  | same {l : Label} : TasksMove s s' c l (s.pool c).tasks
  | pushed {t : Thread} {task : Task} {q : Query} : s.frame t = .query (.push task) q →
      q.client = c → (s.pool c).stop = false → s'.frame t = .query .notify q →
      TasksMove s s' c (.exec t .ok) ((s.pool c).tasks ++ [task])
  | taken {i : Fin poolSize} {task : Task} {tasks : List Task} : s.pc ⟨c, i⟩ = .check →
      (s.pool c).tasks = task :: tasks → s'.pc ⟨c, i⟩ = .run task.start →
      TasksMove s s' c (.work ⟨c, i⟩ (.loop .check)) tasks

section Step

variable {s s' : State} {l : Label}

/-- A step changes no frame but that of the thread that takes it. -/
theorem Step.frame_of_ne (h : Step s l s') {t : Thread} (ht : l.thread ≠ some t) :
    s'.frame t = s.frame t := by
  cases h with
  | loop | task | dtorJoinThrow => rfl
  | _ =>
    have hne : t ≠ _ := fun e => ht (congrArg some e.symm)
    simp [hne]

/-- **What a step does to a worker.** -/
theorem Step.pc_move (h : Step s l s') (w : Worker) : PcMove s w l (s'.pc w) := by
  have hclient : ∀ c K, K.mPool = s.pool c → PcMove s w l ((s.setClient c K).pc w) := by
    intro c K hK
    rw [State.setClient_pc s hK]
    exact .same
  have hsame : ∀ c P, P.workers = (s.pool c).workers → PcMove s w l ((s.setPool c P).pc w) := by
    intro c P hP
    rw [State.setPool_pc_of_workers s hP]
    exact .same
  cases h with
  | @loop v a P hl =>
    rw [State.setPool_pc]
    by_cases hw : w = v
    · subst hw
      rw [if_pos rfl]
      exact .loop hl
    · split
      · rename_i hc
        have hi : w.index ≠ v.index := fun hi => hw (by cases w; cases v; simp_all)
        rw [hl.workers_of_ne hi, ← hc]
        exact .same
      · exact .same
  | @task v a last x m k hf hx hm hk =>
    simp only [State.setInvoked_pc, State.setMutex_pc, State.setPc_pc]
    split
    · rename_i hw
      subst hw
      exact .task hf hx hk
    · exact .same
  | callQuery | query | dtorJoin | dtorJoinThrow => exact .same
  | callDestructor | dtorDone => exact hclient _ _ rfl
  | enqueue | push | pushStopped | notifyNobody | dtorLock | dtorStop => exact hsame _ _ rfl
  | @notifyOne t q i hf hi =>
    simp only [State.goto_pc, State.setPool_pc, ThreadPool.setWorker_workers]
    split
    · rename_i hc
      have hpc : (s.pool q.client).workers w.index = s.pc w := by rw [State.pc, hc]
      split
      · rename_i hw
        rw [← LoopPc.notify_of_sleeping hi, ← hw, hpc]
        exact .notify
      · rw [hpc]
        exact .same
    · exact .same
  | @dtorNotify t c hf =>
    simp only [State.goto_pc, State.setPool_pc]
    split
    · rename_i hc
      subst hc
      exact .notify
    · exact .same

/-- **What a step does to a queue.** -/
theorem Step.tasks_move (h : Step s l s') (c : ClientId) :
    TasksMove s s' c l (s'.pool c).tasks := by
  have hsame : (s'.pool c).tasks = (s.pool c).tasks → TasksMove s s' c l (s'.pool c).tasks :=
    fun heq => heq ▸ .same
  cases h with
  | @loop w a P hP =>
    by_cases hc : c = w.client
    · subst hc
      cases hP with
      | @take task tasks hpc ht =>
        simpa using TasksMove.taken (i := w.index) hpc ht (by simp [State.setPool_pc])
      | _ => exact hsame (by simp)
    · exact hsame (by simp [hc])
  | @push t task q hf hs =>
    by_cases hc : c = q.client
    · subst hc
      simpa using TasksMove.pushed hf rfl hs (by simp)
    · exact hsame (by simp [hc])
  | @pushStopped _ _ q | @enqueue _ _ q | @notifyOne _ q | @notifyNobody _ q =>
    by_cases hc : c = q.client <;> exact hsame (by simp [hc])
  | @callDestructor _ d | @dtorDone _ d =>
    by_cases hc : c = d <;> exact hsame (by simp [hc, State.pool])
  | @dtorLock _ d | @dtorStop _ d | @dtorNotify _ d =>
    by_cases hc : c = d <;> exact hsame (by simp [hc, ThreadPool.notifyAll])
  | _ => exact hsame (by simp)

/-- A pool that is stopped stays stopped. -/
theorem Step.stop (h : Step s l s') {c : ClientId} (hs : (s.pool c).stop = true) :
    (s'.pool c).stop = true := by
  cases h with
  | @loop w a P hP =>
    by_cases hc : c = w.client
    · subst hc
      cases hP <;> simpa using hs
    · simpa [hc] using hs
  | @task w => by_cases hc : c = w.client <;> simpa [State.setPc, hc] using hs
  | @push _ _ q | @pushStopped _ _ q | @enqueue _ _ q | @notifyOne _ q | @notifyNobody _ q =>
    by_cases hc : c = q.client <;> simpa [hc] using hs
  | @callDestructor _ d | @dtorDone _ d => by_cases hc : c = d <;> simpa [hc, State.pool] using hs
  | @dtorLock _ d | @dtorStop _ d | @dtorNotify _ d =>
    by_cases hc : c = d <;> simp_all [ThreadPool.notifyAll]
  | _ => simpa using hs

/-- In a run in which only `t` executes operations, the other threads execute none. -/
theorem frame_of_run_of_ne {ls : List Label} {t u : Thread} (h : pg.run State.init ls = some s)
    (ht : ∀ l ∈ ls, l.thread = none ∨ l.thread = some t) (hu : u ≠ t) :
    s.frame u = .idle none := by
  refine Conc.Machine.eq_of_run (f := fun s => s.frame u)
    (fun _ _ _ hl hst => (step_cases hst).2.frame_of_ne hl) h fun l hl hlu => ?_
  rcases ht l hl with hnone | hsome
  · rw [hnone] at hlu
    cases hlu
  · exact hu (Option.some.inj (hlu.symm.trans hsome))

/-- A task is executed by the steps of its own worker only. -/
theorem Step.pc_of_run (h : Step s l s') {w : Worker} {x : Execution} (hx : s.pc w = .run x)
    (hl : ∀ a, l ≠ .work w (.task a)) : s'.pc w = .run x := by
  have hm := h.pc_move w
  generalize s'.pc w = k at hm ⊢
  cases hm with
  | same => exact hx
  | notify => exact LoopPc.notify_eq_run_iff.2 hx
  | loop hP => exact absurd hx (by cases hP <;> simp_all [State.pc])
  | task => exact absurd rfl (hl _)

/-- A worker that has ended does not come back. -/
theorem Step.pc_of_exited (h : Step s l s') {w : Worker} (hx : s.pc w = .exited) :
    s'.pc w = .exited := by
  have hm := h.pc_move w
  generalize s'.pc w = k at hm ⊢
  cases hm with
  | same => exact hx
  | notify => exact LoopPc.notify_eq_exited_iff.2 hx
  | loop hP => exact absurd hx (by cases hP <;> simp_all [State.pc])
  | task _ hrun _ => simp_all

end Step

/-! ### Operations called from callbacks -/

/-- The worker `w` is in the callback of its task. -/
def State.InCallback (s : State) (w : Worker) : Prop :=
  ∃ task messages, s.pc w = .run ⟨task, .callback messages⟩

theorem State.idle_of_ready {s : State} {t : Thread} (h : s.ready t = true) :
    ∃ last, s.frame t = .idle last := by
  cases t with
  | app i =>
    simp only [ready] at h
    split at h
    · exact ⟨_, ‹_›⟩
    · cases h
  | worker w =>
    simp only [ready] at h
    split at h
    · exact ⟨_, ‹_›⟩
    · cases h

theorem State.inCallback_of_ready {s : State} {w : Worker} (h : s.ready (.worker w) = true) :
    s.InCallback w := by
  simp only [ready] at h
  split at h
  · exact ⟨_, _, ‹_›⟩
  · cases h

/-- A worker that executes an operation is in its callback. -/
def CallbackFrames (s : State) : Prop :=
  ∀ w, (∀ last, s.frame (.worker w) ≠ .idle last) → s.InCallback w

theorem CallbackFrames.step {s s' : State} {l : Label} (hs : CallbackFrames s)
    (h : Step s l s') : CallbackFrames s' := by
  intro w hw
  -- the worker is in the callback before the step, and its task cannot move
  have hcall : s.InCallback w ∧ ∀ a, l ≠ .work w (.task a) := by
    by_cases hl : l.thread = some (.worker w)
    · refine ⟨?_, fun a e => by simp [e, Label.thread] at hl⟩
      cases h with
      | loop | task => simp [Label.thread] at hl
      | callQuery hr | callDestructor hr =>
        cases hl
        exact State.inCallback_of_ready hr
      | dtorJoinThrow => exact hs w hw
      | _ =>
        cases hl
        exact hs w (by simp_all)
    · have hf := h.frame_of_ne hl
      rw [hf] at hw
      refine ⟨hs w hw, fun a e => ?_⟩
      subst e
      cases h with
      | task hidle => exact hw _ hidle
  obtain ⟨⟨task, messages, hpc⟩, hl⟩ := hcall
  exact ⟨task, messages, h.pc_of_run hpc hl⟩

theorem CallbackFrames.init : CallbackFrames State.init := fun _ h => absurd rfl (h _)

theorem callbackFrames_of_reachable {C : State → Label → Prop} {s : State}
    (h : pg.ReachableWhere C State.init s) : CallbackFrames s :=
  h.invariant CallbackFrames.init fun _ _ _ hs _ hst => hs.step (step_cases hst).2

end Comyno.Pg
