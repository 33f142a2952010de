import Comyno.Qpid.Receiver
import Mathlib.Data.List.AList
import Mathlib.Logic.Function.Basic

/-!
# The messaging library as a machine

`QPIDMessaging` keeps a registry `activeReceivers` from exchanges to receivers.  This file adds
its operations `qpidReceiveMessages`, `qpidReceiveStop` and `~QPIDMessaging`, and the operations
of `QPIDReceiver` they call, to the workers of `Comyno.Qpid.Receiver`, and puts everything
together as one machine (`qpid`) for the whole process: any number of `QPIDMessaging` objects,
each with an application thread, any number of receivers, and the one static
`QPIDReceiver::mMutex` they share.

## The model

* A thread (`Thread`) is an application thread or the worker of a receiver.  The operation it
  executes is its `Frame`, whose constructors are the program points of the source.  A worker has
  a frame too, since its callback may call the library.
* A step (`Label`) executes one program point.  Every access to the registry, to
  `mReceivingActive` and to the thread handle, and every call of the connector, is a step of its
  own; `Outcome` says whether a connector call returned or threw.
* Receivers are numbered in order of construction and stay in the state after their destruction,
  so that statements can speak about them.
* A process that calls `std::terminate` or dereferences an empty `shared_ptr` halts (`Halt`).

`Label.lost` is the broker dropping a connection.
-/

namespace Comyno

/-- The identity of a `QPIDMessaging` object. -/
abbrev ObjId := ℕ

/-- `QPIDMessaging::activeReceivers`. -/
abbrev Registry := AList fun _ : String => RecvId

/-- The threads of the process. -/
inductive Thread where
  /-- The application thread that uses the object `o`. -/
  | app (o : ObjId)
  /-- The worker thread of the receiver `r`. -/
  | worker (r : RecvId)
  deriving DecidableEq, Repr

/-- How an operation ended. -/
inductive Result where
  | status (st : QPIDStatus)
  /-- A `std::exception` left the operation. -/
  | threw
  /-- `~QPIDMessaging` returned. -/
  | destroyed
  deriving DecidableEq, Repr

/-- The outcome of a call of the connector (or of the creation of a thread). -/
inductive Outcome where
  | ok
  | throw
  deriving DecidableEq, Repr

/-- The program points of `QPIDReceiver::receiveMessages`. -/
inductive StartPc where
  | openConnection
  | createSession
  | createReceiver
  /-- At `std::thread(&QPIDReceiver::waitForMessages, this)`. -/
  | createThread
  /-- In the catch block, at `closeConnection`. -/
  | handler
  deriving DecidableEq, Repr

/-- The program points of `QPIDReceiver::receiveStop`. -/
inductive StopPc where
  /-- At `if (mReceivingActive)`. -/
  | test
  /-- At `mReceivingActive = false`. -/
  | clear
  | close
  /-- At `if (mMessageReceiverThreadFunction.joinable())`. -/
  | joinable
  | join
  deriving DecidableEq, Repr

/-- The program points of `~QPIDReceiver`. -/
inductive DtorPc where
  /-- At `if (mReceivingActive)`. -/
  | test
  /-- At `mReceivingActive = false`. -/
  | clear
  | close
  /-- At `if (mMessageReceiverThreadFunction.joinable())`. -/
  | joinable
  | join
  deriving DecidableEq, Repr

/-- The caller of `receiveStop`. -/
inductive StopCaller where
  /-- `qpidReceiveStop(e)` on `o`. -/
  | receiveStop (o : ObjId) (e : String)
  /-- The loop of `~QPIDMessaging`, which still has to stop the receivers of `todo`. -/
  | destructor (o : ObjId) (todo : List String)
  deriving DecidableEq, Repr

/-- What runs `~QPIDReceiver`: the last `shared_ptr` to the receiver is dropped. -/
inductive DtorCaller where
  /-- At the end of an operation, which then ends as given. -/
  | operation (res : Result)
  /-- In `activeReceivers.clear()` of `~QPIDMessaging`. -/
  | clear (o : ObjId)
  deriving DecidableEq, Repr

/-- What a thread executes of the library. -/
inductive Frame where
  /-- Nothing; the last operation ended as given. -/
  | idle (last : Option Result)
  /-- `qpidReceiveMessages`, at `createConnection` in the constructor of the receiver. -/
  | construct (o : ObjId) (e : String)
  /-- `qpidReceiveMessages`, in `receiveMessages`. -/
  | start (pc : StartPc) (o : ObjId) (e : String) (r : RecvId)
  /-- `qpidReceiveMessages`, at `activeReceivers.emplace`. -/
  | emplace (o : ObjId) (e : String) (r : RecvId)
  /-- `qpidReceiveStop`, at `activeReceivers[exchange]`. -/
  | index (o : ObjId) (e : String)
  /-- In `receiveStop`. -/
  | stop (pc : StopPc) (k : StopCaller) (r : RecvId)
  /-- `qpidReceiveStop`, at `activeReceivers.erase`. -/
  | erase (o : ObjId) (e : String) (st : QPIDStatus)
  /-- In `~QPIDReceiver`. -/
  | dtor (pc : DtorPc) (k : DtorCaller) (r : RecvId)
  /-- The loop of `~QPIDMessaging`. -/
  | stopAll (o : ObjId) (todo : List String)
  /-- `activeReceivers.clear()` in `~QPIDMessaging`. -/
  | clearAll (o : ObjId)
  deriving DecidableEq, Repr

/-- Why the process ended. -/
inductive Halt where
  /-- `std::terminate`: an exception left the thread function of a worker. -/
  | worker
  /-- `std::terminate`: `closeConnection` threw in `~QPIDReceiver`. -/
  | destructorClose
  /-- `std::terminate`: `join` threw in `~QPIDReceiver`. -/
  | destructorJoin
  /-- `receiveStop` was called through an empty `shared_ptr`. -/
  | nullReceiver
  deriving DecidableEq, Repr

/-- The state of the process. -/
structure State where
  /-- The worker that owns the static `QPIDReceiver::mMutex`. -/
  mMutex : Option RecvId := none
  recv : RecvId → Receiver := fun _ => {}
  /-- The receiver constructed next. -/
  next : RecvId := 0
  activeReceivers : ObjId → Registry := fun _ => ∅
  frame : Thread → Frame := fun _ => .idle none
  halted : Option Halt := none

/-- The operations a thread can enter. -/
inductive Operation where
  /-- `qpidReceiveMessages(e, callback)` on `o`; `callback` says whether it is non-empty. -/
  | qpidReceiveMessages (o : ObjId) (e : String) (callback : Bool)
  /-- `qpidReceiveStop(e)` on `o`. -/
  | qpidReceiveStop (o : ObjId) (e : String)
  /-- `~QPIDMessaging` on `o`. -/
  | destructor (o : ObjId)
  deriving DecidableEq, Repr

/-- The labels of the machine. -/
inductive Label where
  /-- A step of the worker of `r`. -/
  | work (r : RecvId) (a : WorkerAct)
  /-- `t` enters an operation. -/
  | call (t : Thread) (c : Operation)
  /-- `t` executes the next program point of its operation. -/
  | exec (t : Thread) (x : Outcome)
  /-- In `~QPIDMessaging`, `t` takes up the entry of `e` of the registry. -/
  | pick (t : Thread) (e : String)
  /-- The connection of `r` is lost. -/
  | lost (r : RecvId)
  deriving DecidableEq, Repr

/-- Where `receiveStop` returns to with status `st`. -/
def StopCaller.frame : StopCaller → QPIDStatus → Frame
  | .receiveStop o e, st => .erase o e st
  | .destructor o todo, _ => .stopAll o todo

/-- Where `~QPIDReceiver` returns to. -/
def DtorCaller.frame : DtorCaller → Frame
  | .operation res => .idle (some res)
  | .clear o => .clearAll o

namespace State

variable (s : State)

/-- `t` continues at `f`. -/
def goto (t : Thread) (f : Frame) : State := { s with frame := Function.update s.frame t f }

/-- The receiver `r` becomes `R`. -/
def setRecv (r : RecvId) (R : Receiver) : State := { s with recv := Function.update s.recv r R }

/-- The registry of `o` becomes `reg`. -/
def setReg (o : ObjId) (reg : Registry) : State :=
  { s with activeReceivers := Function.update s.activeReceivers o reg }

/-- A step of the worker of `r`.  The callback of the worker ends only when the operation it
called has ended. -/
def work (r : RecvId) (a : WorkerAct) : Option State :=
  match s.frame (.worker r), a.mutex r s.mMutex, (s.recv r).waitForMessages a with
  | .idle _, some mMutex, some R =>
    some { s.setRecv r R with
      mMutex := mMutex
      halted := if a.escapes then some .worker else none }
  | _, _, _ => none

/-- `t` may enter an operation: it executes none, and a worker is in its callback. -/
def ready : Thread → Bool
  | .app o => match s.frame (.app o) with
    | .idle _ => true
    | _ => false
  | .worker r => match s.frame (.worker r) with
    | .idle _ => (s.recv r).pc.inCallback
    | _ => false

/-- `t` enters an operation and executes it up to its first access to the registry, included. -/
def call (t : Thread) : Operation → State
  | .qpidReceiveMessages o e callback =>
    if callback then
      match (s.activeReceivers o).lookup e with
      | some _ => s.goto t (.idle (some (.status .qpidAlready)))
      | none => s.goto t (.construct o e)
    else s.goto t (.idle (some (.status .qpidError)))
  | .qpidReceiveStop o e =>
    match (s.activeReceivers o).lookup e with
    | none => s.goto t (.idle (some (.status .qpidInvalidParam)))
    | some _ => s.goto t (.index o e)
  | .destructor o => s.goto t (.stopAll o (s.activeReceivers o).keys)

/-- `QPIDReceiver::receiveMessages`, executed by `t`. -/
def receiveMessages (t : Thread) (o : ObjId) (e : String) (r : RecvId) :
    StartPc → Outcome → Option State
  | .openConnection, .ok =>
    some ((s.setRecv r { s.recv r with isOpen := true }).goto t (.start .createSession o e r))
  | .createSession, .ok =>
    some ((s.setRecv r { s.recv r with mExchange := e }).goto t (.start .createReceiver o e r))
  | .createReceiver, .ok =>
    some ((s.setRecv r { s.recv r with mReceivingActive := true }).goto t
      (.start .createThread o e r))
  | .createThread, .ok =>
    some ((s.setRecv r { s.recv r with thread := .joinable, pc := .test }).goto t (.emplace o e r))
  | .handler, .ok =>
    some ((s.setRecv r (s.recv r).closeConnection).goto t
      (.dtor .test (.operation (.status .qpidError)) r))
  -- the exception leaves `qpidReceiveMessages`; unwinding drops the last `shared_ptr`
  | .handler, .throw =>
    some ((s.setRecv r (s.recv r).closeConnectionThrow).goto t (.dtor .test (.operation .threw) r))
  | _, .throw => some (s.goto t (.start .handler o e r))

/-- `QPIDReceiver::receiveStop`, executed by `t`. -/
def receiveStop (t : Thread) (k : StopCaller) (r : RecvId) : StopPc → Outcome → Option State
  | .test, .ok =>
    if (s.recv r).mReceivingActive then some (s.goto t (.stop .clear k r))
    else some (s.goto t (k.frame .qpidInvalidParam))
  | .clear, .ok =>
    some ((s.setRecv r { s.recv r with mReceivingActive := false }).goto t (.stop .close k r))
  | .close, .ok =>
    some ((s.setRecv r (s.recv r).closeConnection).goto t (.stop .joinable k r))
  | .close, .throw =>
    some ((s.setRecv r (s.recv r).closeConnectionThrow).goto t (k.frame .qpidError))
  | .joinable, .ok =>
    if (s.recv r).thread = .joinable then some (s.goto t (.stop .join k r))
    else some (s.goto t (k.frame .qpidSuccess))
  | .join, .ok =>
    -- `std::thread::join` throws on the thread itself and on a thread that is not joinable
    if t = .worker r ∨ (s.recv r).thread ≠ .joinable then
      some (s.goto t (k.frame .qpidError))
    else if (s.recv r).pc = .exited then
      some ((s.setRecv r { s.recv r with thread := .joined }).goto t (k.frame .qpidSuccess))
    else none
  | _, .throw => none

/-- `~QPIDReceiver`, executed by `t`. -/
def destroyReceiver (t : Thread) (k : DtorCaller) (r : RecvId) : DtorPc → Outcome → Option State
  | .test, .ok =>
    if (s.recv r).mReceivingActive then some (s.goto t (.dtor .clear k r))
    else some (s.goto t (.dtor .joinable k r))
  | .clear, .ok =>
    some ((s.setRecv r { s.recv r with mReceivingActive := false }).goto t (.dtor .close k r))
  | .close, .ok =>
    some ((s.setRecv r (s.recv r).closeConnection).goto t (.dtor .joinable k r))
  | .close, .throw =>
    some { s.setRecv r (s.recv r).closeConnectionThrow with halted := some .destructorClose }
  | .joinable, .ok =>
    if (s.recv r).thread = .joinable then some (s.goto t (.dtor .join k r))
    else some ((s.setRecv r { s.recv r with destroyed := true }).goto t k.frame)
  | .join, .ok =>
    if t = .worker r ∨ (s.recv r).thread ≠ .joinable then
      some { s with halted := some .destructorJoin }
    else if (s.recv r).pc = .exited then
      some ((s.setRecv r { s.recv r with thread := .joined, destroyed := true }).goto t k.frame)
    else none
  | _, .throw => none

/-- `t` executes the next program point of its operation. -/
def exec (t : Thread) (x : Outcome) : Option State :=
  match s.frame t, x with
  | .construct o e, .ok =>
    some { s.goto t (.start .openConnection o e s.next) with next := s.next + 1 }
  | .construct _ _, .throw => some (s.goto t (.idle (some .threw)))
  | .start pc o e r, x => s.receiveMessages t o e r pc x
  | .emplace o e r, .ok =>
    match (s.activeReceivers o).lookup e with
    | none =>
      some ((s.setReg o ((s.activeReceivers o).insert e r)).goto t
        (.idle (some (.status .qpidSuccess))))
    | some _ => some (s.goto t (.dtor .test (.operation (.status .qpidSuccess)) r))
  | .index o e, .ok =>
    match (s.activeReceivers o).lookup e with
    | some r => some (s.goto t (.stop .test (.receiveStop o e) r))
    | none => some { s with halted := some .nullReceiver }
  | .stop pc k r, x => s.receiveStop t k r pc x
  | .erase o e st, .ok =>
    match (s.activeReceivers o).lookup e with
    | some r =>
      some ((s.setReg o ((s.activeReceivers o).erase e)).goto t
        (.dtor .test (.operation (.status st)) r))
    | none => some (s.goto t (.idle (some (.status st))))
  | .dtor pc k r, x => s.destroyReceiver t k r pc x
  | .stopAll o [], .ok => some (s.goto t (.clearAll o))
  | .clearAll o, .ok =>
    if (s.activeReceivers o).entries = [] then some (s.goto t (.idle (some .destroyed))) else none
  | _, _ => none

/-- `t` takes up the entry of `e` of the registry, in the loop of `~QPIDMessaging` or in
`activeReceivers.clear()`.  The order of an `std::unordered_map` is unspecified. -/
def pick (t : Thread) (e : String) : Option State :=
  match s.frame t with
  | .stopAll o todo =>
    match (s.activeReceivers o).lookup e with
    | some r =>
      if e ∈ todo then some (s.goto t (.stop .test (.destructor o (todo.erase e)) r)) else none
    | none => none
  | .clearAll o =>
    match (s.activeReceivers o).lookup e with
    | some r =>
      some ((s.setReg o ((s.activeReceivers o).erase e)).goto t (.dtor .test (.clear o) r))
    | none => none
  | _ => none

/-- One step of the process. -/
def step (s : State) (l : Label) : Option State :=
  if s.halted.isSome then none
  else match l with
    | .work r a => s.work r a
    | .call t c => if s.ready t then some (s.call t c) else none
    | .exec t x => s.exec t x
    | .pick t e => s.pick t e
    | .lost r => some (s.setRecv r { s.recv r with isOpen := false })

end State

/-- **The messaging library as a machine.** -/
def qpid : Conc.Machine State Label := ⟨State.step⟩

/-- The process before any operation: no receiver exists. -/
def State.init : State := {}

/-- The steps of a successful `qpidReceiveMessages(e, callback)` on `o`, called by the
application thread of `o`. -/
def startLabels (o : ObjId) (e : String) : List Label :=
  .call (.app o) (.qpidReceiveMessages o e true) :: List.replicate 6 (.exec (.app o) .ok)

example : ((qpid.run State.init (startLabels 0 "e")).map fun s =>
    (s.frame (.app 0), (s.recv 0).mExchange, (s.recv 0).pc)) =
      some (.idle (some (.status .qpidSuccess)), "e", .test) := rfl

end Comyno
