import Comyno.Conc.Machine
import Comyno.Pg.ThreadPool
import Mathlib.Algebra.GroupWithZero.Nat

/-!
# The database client as a machine

`PGClient` answers `pgMessageQuery` by queueing a task in its `ThreadPool`; a worker of the pool
executes the task (`queryExchange`) and hands the messages to the callback with the static
`PGClient::mMutex` locked.  This file models the whole process as one machine (`pg`): any number
of clients, their workers, any number of application threads, and the mutex all clients share.

## The model

* A `Worker` is one of the five workers of a client.  Each call that `queryExchange` makes is a
  step, whose label says whether it returned, and what, or threw.
* `pgMessageQuery` and `~PGClient` are executed by an application thread, or by a worker whose
  callback calls them (`Frame`).
* `~PGClient` is the implicit one: it destroys the members of the client in reverse order of their
  declaration, that is `mPGConnector`, then `mPool`, whose destructor stops the pool and joins its
  workers, and at last `mDatabase`.  The state says which members are alive.
* A client exists from the start and is used by whatever calls the run makes.

The ticket of a query and the list `invoked` record what has happened; no step reads them.
-/

namespace Comyno.Pg

/-- A row of the table `Messages`, as it is handed to callbacks. -/
structure Message where
  id : ℤ
  payload : String
  timestamp : String
  deriving DecidableEq, Repr

/-- The result of an operation of the client. -/
inductive PGStatus where
  | pgSuccess
  | pgError
  deriving DecidableEq, Repr

/-- The identity of a `PGClient` object. -/
abbrev ClientId := ℕ

/-- The number of workers of a client: `mPool(5)`. -/
abbrev poolSize : ℕ := 5

theorem poolSize_ne_zero : poolSize ≠ 0 := by decide

instance : NeZero poolSize := ⟨poolSize_ne_zero⟩

/-- A worker thread. -/
structure Worker where
  client : ClientId
  index : Fin poolSize
  deriving DecidableEq, Repr

/-- The threads of the process. -/
inductive Thread where
  | app (i : ℕ)
  | worker (w : Worker)
  deriving DecidableEq, Repr

/-- A task: `queryExchange(exchangeID, callback)`, bound to the client it is queued at. -/
structure Task where
  /-- The query that queued it. -/
  ticket : ℕ
  exchangeID : ℤ
  /-- The callback is non-empty. -/
  callback : Bool
  deriving DecidableEq, Repr

/-- The program points of `queryExchange`. -/
inductive TaskPc where
  | openConnection
  | createTransaction
  | prepareStatement
  | executePrepared
  | executeQuery
  | resultGetAll (r : List Message)
  /-- At `mMutex.lock()`. -/
  | lock (messages : List Message)
  /-- `mMutex` is locked; at the call of the callback. -/
  | call (messages : List Message)
  /-- In the callback. -/
  | callback (messages : List Message)
  /-- At `mMutex.unlock()`. -/
  | unlock
  deriving DecidableEq, Repr

namespace TaskPc

/-- Between `mMutex.lock()` and `mMutex.unlock()`. -/
def locked : TaskPc → Bool
  | call _ | callback _ | unlock => true
  | _ => false

/-- At a call of a member function of `mPGConnector`. -/
def usesConnector : TaskPc → Bool
  | openConnection | createTransaction | prepareStatement | executePrepared | executeQuery
  | resultGetAll _ => true
  | _ => false

end TaskPc

/-- A task being executed. -/
structure Execution where
  task : Task
  pc : TaskPc
  deriving DecidableEq, Repr

/-- The execution of a task begins. -/
def Task.start (task : Task) : Execution := ⟨task, .openConnection⟩

/-- What a call of the connector returns. -/
inductive Outcome where
  | ok
  | throw
  /-- `quoteString` returns `str`. -/
  | quoted (str : String)
  /-- `executeQuery` returns a result with the given first column. -/
  | ids (r : List ℤ)
  /-- `executeQuery` returns a result with the given rows. -/
  | messages (r : List Message)
  deriving DecidableEq, Repr

/-- The steps of a task, with the outcome of the call made at the step. -/
inductive TaskAct where
  /-- A call of the connector. -/
  | connector (x : Outcome)
  | lock
  /-- The callback is entered. -/
  | invoke
  | callbackReturn
  /-- The call of the callback throws. -/
  | callbackThrow
  | unlock
  deriving DecidableEq, Repr

/-- The text of the query that `queryExchange` executes. -/
def Task.query (task : Task) : String :=
  if task.exchangeID ≠ -1 then
    "SELECT ID, payload, created_at FROM Messages WHERE exchange_id = " ++ toString task.exchangeID
  else "SELECT ID, payload, created_at FROM Messages"

/-- One step of `PGClient::queryExchange`, without its effect on `mMutex`.  The task ends with its
last step, or with an exception. -/
def Execution.queryExchange (x : Execution) : TaskAct → Option (LoopPc Execution) := fun a =>
  match x.pc, a with
  | .openConnection, .connector .ok => some (.run { x with pc := .createTransaction })
  | .createTransaction, .connector .ok => some (.run { x with pc := .prepareStatement })
  | .prepareStatement, .connector .ok => some (.run { x with pc := .executePrepared })
  | .executePrepared, .connector .ok => some (.run { x with pc := .executeQuery })
  | .executeQuery, .connector (.messages r) => some (.run { x with pc := .resultGetAll r })
  | .resultGetAll r, .connector .ok => some (.run { x with pc := .lock r })
  | .lock r, .lock => some (.run { x with pc := .call r })
  -- calling an empty `std::function` throws
  | .call r, .invoke => if x.task.callback then some (.run { x with pc := .callback r }) else none
  | .call _, .callbackThrow => some .acquire
  | .callback _, .callbackReturn => some (.run { x with pc := .unlock })
  | .callback _, .callbackThrow => some .acquire
  | .unlock, .unlock => some .acquire
  | pc, .connector .throw => if pc.usesConnector then some .acquire else none
  | _, _ => none

/-- What a step of the worker `w` does to `mMutex`; `none` if it cannot be taken. -/
def TaskAct.mutex (w : Worker) (mMutex : Option Worker) : TaskAct → Option (Option Worker)
  | .lock => if mMutex = none then some (some w) else none
  | .unlock => some none
  | _ => some mMutex

/-- A call of `pgMessageQuery`. -/
structure Query where
  ticket : ℕ
  client : ClientId
  /-- The callback is non-empty. -/
  callback : Bool
  exchange : String
  deriving DecidableEq, Repr

/-- The program points of `pgMessageQuery`. -/
inductive QueryPc where
  | openConnection
  | createTransaction
  | quoteString
  | executeQuery (query : String)
  | resultIsEmpty (r : List ℤ)
  | resultGetFirstInt (r : List ℤ)
  /-- In `ThreadPool::enqueue`, at the lock of `queue_mutex`. -/
  | enqueue (task : Task)
  /-- In `ThreadPool::enqueue`, with `queue_mutex` locked. -/
  | push (task : Task)
  /-- In `ThreadPool::enqueue`, at `condition.notify_one()`. -/
  | notify
  deriving DecidableEq, Repr

/-- At a call of the connector. -/
def QueryPc.usesConnector : QueryPc → Bool
  | openConnection | createTransaction | quoteString | executeQuery _ | resultIsEmpty _
  | resultGetFirstInt _ => true
  | enqueue _ | push _ | notify => false

/-- The program points of `~PGClient`, once `mPGConnector` is destroyed. -/
inductive DtorPc where
  /-- In `~ThreadPool`, at the lock of `queue_mutex`. -/
  | lock
  /-- In `~ThreadPool`, with `queue_mutex` locked. -/
  | stop
  /-- In `~ThreadPool`, at `condition.notify_all()`. -/
  | notify
  /-- In `~ThreadPool`, with the workers of `todo` still to be joined. -/
  | join (todo : List (Fin poolSize))
  deriving DecidableEq, Repr

/-- How an operation ended. -/
inductive Result where
  | status (st : PGStatus)
  /-- `~PGClient` returned. -/
  | destroyed
  deriving DecidableEq, Repr

/-- What a thread executes of the client, outside the tasks. -/
inductive Frame where
  /-- Nothing; the last operation ended as given. -/
  | idle (last : Option Result)
  /-- `pgMessageQuery`. -/
  | query (pc : QueryPc) (q : Query)
  /-- `~PGClient`. -/
  | dtor (pc : DtorPc) (c : ClientId)
  deriving DecidableEq, Repr

/-- The operations a thread can enter. -/
inductive Operation where
  /-- `pgMessageQuery(callback, exchange)` on `c`; `callback` says whether it is non-empty. -/
  | pgMessageQuery (c : ClientId) (callback : Bool) (exchange : String)
  /-- `~PGClient` on `c`. -/
  | destructor (c : ClientId)
  deriving DecidableEq, Repr

/-- The pool of a client. -/
abbrev Pool := ThreadPool Thread Task Execution poolSize

/-- A `PGClient`. -/
structure Client where
  /-- `mDatabase` is alive. -/
  mDatabase : Bool := true
  mPool : Pool := {}
  /-- `mPGConnector` is alive. -/
  mPGConnector : Bool := true

/-- The state of the process. -/
structure State where
  /-- The worker that owns the static `PGClient::mMutex`. -/
  mMutex : Option Worker := none
  client : ClientId → Client := fun _ => {}
  frame : Thread → Frame := fun _ => .idle none
  /-- The ticket of the next query. -/
  next : ℕ := 0
  /-- The calls of callbacks, oldest first. -/
  invoked : List (ℕ × List Message) := []
  /-- The process has called `std::terminate`. -/
  halted : Bool := false

/-- The steps of a worker. -/
inductive WorkerAct where
  | loop (a : LoopAct)
  | task (a : TaskAct)
  deriving DecidableEq, Repr

/-- The labels of the machine. -/
inductive Label where
  /-- A step of the worker `w`. -/
  | work (w : Worker) (a : WorkerAct)
  /-- `t` enters an operation. -/
  | call (t : Thread) (c : Operation)
  /-- `t` executes the next program point of its operation. -/
  | exec (t : Thread) (x : Outcome)
  /-- `t` calls `condition.notify_one()`, which wakes worker `i`. -/
  | notify (t : Thread) (i : Option (Fin poolSize))
  deriving DecidableEq, Repr

namespace State

variable (s : State)

/-- `t` continues at `f`. -/
def goto (t : Thread) (f : Frame) : State := { s with frame := Function.update s.frame t f }

/-- The client `c` becomes `K`. -/
def setClient (c : ClientId) (K : Client) : State :=
  { s with client := Function.update s.client c K }

/-- The pool of the client `c`. -/
def pool (c : ClientId) : Pool := (s.client c).mPool

/-- The pool of the client `c` becomes `P`. -/
def setPool (c : ClientId) (P : Pool) : State :=
  s.setClient c { s.client c with mPool := P }

/-- Where the worker `w` is. -/
def pc (w : Worker) : LoopPc Execution := (s.pool w.client).workers w.index

/-- The worker `w` continues at `pc`. -/
def setPc (w : Worker) (pc : LoopPc Execution) : State :=
  s.setPool w.client ((s.pool w.client).setWorker w.index pc)

/-- `mMutex` gets the given owner. -/
def setMutex (mMutex : Option Worker) : State := { s with mMutex := mMutex }

/-- The record of the calls of callbacks becomes `invoked`. -/
def setInvoked (invoked : List (ℕ × List Message)) : State := { s with invoked := invoked }

/-- A ticket is given out. -/
def tick : State := { s with next := s.next + 1 }

/-- The process calls `std::terminate`. -/
def terminate : State := { s with halted := true }

/-- The calls of callbacks after a step of a task. -/
def record (x : Execution) : TaskAct → List (ℕ × List Message)
  | .invoke => match x.pc with
    | .call messages => s.invoked ++ [(x.task.ticket, messages)]
    | _ => s.invoked
  | _ => s.invoked

/-- A step of the worker `w`.  The callback of a task ends only when the operation it called has
ended. -/
def work (w : Worker) : WorkerAct → Option State
  | .loop a =>
    ((s.pool w.client).loop (.worker w) w.index Task.start a).map (s.setPool w.client)
  | .task a =>
    match s.frame (.worker w), s.pc w with
    | .idle _, .run x =>
      match a.mutex w s.mMutex, x.queryExchange a with
      | some mMutex, some pc =>
        some (((s.setPc w pc).setMutex mMutex).setInvoked (s.record x a))
      | _, _ => none
    | _, _ => none

/-- `t` may enter an operation: it executes none, and a worker is in its callback. -/
def ready : Thread → Bool
  | .app i => match s.frame (.app i) with
    | .idle _ => true
    | _ => false
  | .worker w => match s.frame (.worker w), s.pc w with
    | .idle _, .run ⟨_, .callback _⟩ => true
    | _, _ => false

/-- `t` enters an operation.  The first action of `~PGClient` is to destroy `mPGConnector`. -/
def call (t : Thread) : Operation → State
  | .pgMessageQuery c callback exchange =>
    (s.goto t (.query .openConnection ⟨s.next, c, callback, exchange⟩)).tick
  | .destructor c =>
    (s.setClient c { s.client c with mPGConnector := false }).goto t (.dtor .lock c)

/-- `PGClient::pgMessageQuery`, executed by `t`. -/
def pgMessageQuery (t : Thread) (q : Query) : QueryPc → Outcome → Option State
  | .openConnection, .ok => some (s.goto t (.query .createTransaction q))
  | .createTransaction, .ok =>
    if q.exchange ≠ "" then some (s.goto t (.query .quoteString q))
    else some (s.goto t (.query (.enqueue ⟨q.ticket, -1, q.callback⟩) q))
  | .quoteString, .quoted str =>
    some (s.goto t (.query
      (.executeQuery ("SELECT ID FROM Exchanges WHERE exchange_name = " ++ str)) q))
  | .executeQuery _, .ids r => some (s.goto t (.query (.resultIsEmpty r) q))
  | .resultIsEmpty r, .ok =>
    if r = [] then some (s.goto t (.idle (some (.status .pgError))))
    else some (s.goto t (.query (.resultGetFirstInt r) q))
  | .resultGetFirstInt (exchangeID :: _), .ok =>
    some (s.goto t (.query (.enqueue ⟨q.ticket, exchangeID, q.callback⟩) q))
  | .enqueue task, .ok =>
    ((s.pool q.client).lock t).map fun P => (s.setPool q.client P).goto t (.query (.push task) q)
  | .push task, .ok =>
    match (s.pool q.client).enqueue task with
    | some P => some ((s.setPool q.client P.unlock).goto t (.query .notify q))
    -- enqueue on stopped ThreadPool
    | none =>
      some ((s.setPool q.client (s.pool q.client).unlock).goto t
        (.idle (some (.status .pgError))))
  | pc, .throw =>
    if pc.usesConnector then some (s.goto t (.idle (some (.status .pgError)))) else none
  | _, _ => none

/-- `~PGClient`, executed by `t`. -/
def destroyClient (t : Thread) (c : ClientId) : DtorPc → Option State
  | .lock => ((s.pool c).lock t).map fun P => (s.setPool c P).goto t (.dtor .stop c)
  | .stop => some ((s.setPool c { (s.pool c).unlock with stop := true }).goto t (.dtor .notify c))
  | .notify =>
    some ((s.setPool c (s.pool c).notifyAll).goto t (.dtor (.join (List.finRange poolSize)) c))
  | .join (i :: todo) =>
    -- `std::thread::join` throws on the thread itself, and destructors must not throw
    if t = .worker ⟨c, i⟩ then some s.terminate
    else if s.pc ⟨c, i⟩ = .exited then some (s.goto t (.dtor (.join todo) c)) else none
  | .join [] =>
    some ((s.setClient c { s.client c with mDatabase := false }).goto t (.idle (some .destroyed)))

/-- `t` executes the next program point of its operation. -/
def exec (t : Thread) (x : Outcome) : Option State :=
  match s.frame t, x with
  | .query pc q, x => s.pgMessageQuery t q pc x
  | .dtor pc c, .ok => s.destroyClient t c pc
  | _, _ => none

/-- `t` calls `condition.notify_one()` at the end of `enqueue`. -/
def notify (t : Thread) (i : Option (Fin poolSize)) : Option State :=
  match s.frame t with
  | .query .notify q =>
    ((s.pool q.client).notifyOne i).map fun P =>
      (s.setPool q.client P).goto t (.idle (some (.status .pgSuccess)))
  | _ => none

/-- One step of the process. -/
def step (s : State) (l : Label) : Option State :=
  if s.halted then none
  else match l with
    | .work w a => s.work w a
    | .call t c => if s.ready t then some (s.call t c) else none
    | .exec t x => s.exec t x
    | .notify t i => s.notify t i

end State

/-- **The database client as a machine.** -/
def pg : Conc.Machine State Label := ⟨State.step⟩

/-- The process before any operation. -/
def State.init : State := {}

/-- The steps of a successful `pgMessageQuery(callback)` on `c` by an application thread, with
every worker at the top of its loop. -/
def queryLabels (i : ℕ) (c : ClientId) (callback : Bool) : List Label :=
  .call (.app i) (.pgMessageQuery c callback "") :: List.replicate 4 (.exec (.app i) .ok) ++
    [.notify (.app i) none]

/-- The steps of a worker that takes a task and executes it up to `mMutex.lock()`. -/
def fetchLabels (w : Worker) (messages : List Message) : List Label :=
  .work w (.loop .acquire) :: .work w (.loop .check) ::
    (List.replicate 4 (.work w (.task (.connector .ok))) ++
      [.work w (.task (.connector (.messages messages))), .work w (.task (.connector .ok))])

example : ((pg.run State.init (queryLabels 0 0 true ++ fetchLabels ⟨0, 0⟩ [])).map fun s =>
    (s.frame (.app 0), s.pc ⟨0, 0⟩)) =
      some (.idle (some (.status .pgSuccess)), .run ⟨⟨0, -1, true⟩, .lock []⟩) := rfl

end Comyno.Pg
