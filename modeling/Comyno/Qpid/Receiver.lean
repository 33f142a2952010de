import Comyno.Conc.Lock

/-!
# A receiver and its worker thread

`QPIDReceiver` owns one connection, one session and one worker thread.  The worker runs
`waitForMessages`: while `mReceivingActive` is set it fetches a message, calls the callback with
the process-wide `mMutex` locked, and acknowledges the session; any `std::exception` takes it to
a handler that closes the connection if it is still open.

This file holds the data of a receiver and the steps of its worker.  The operations that other
threads perform on a receiver are in `Comyno.Qpid.Messaging`.

The worker's place in the source is its `WorkerPc`.  Each call the worker makes is one step, and
the label of the step (`WorkerAct`) says whether the call returned or threw, so every pattern of
exceptions and every interleaving is a run.  `getContent` and `getReplyTo` are evaluated as part
of the call expression of the callback: an exception from any of the three is
`WorkerAct.callbackThrow`.

The lists `fetched`, `invoked`, `processed` and `acked` and the counter `closes` record what has
happened; no step reads them.
-/

namespace Comyno

/-- The result of an operation of the messaging library. -/
inductive QPIDStatus where
  | qpidSuccess
  | qpidError
  | qpidAlready
  | qpidInvalidParam
  deriving DecidableEq, Repr

/-- The part of `qpid::messaging::Address` the library reads. -/
structure Address where
  /-- `getName()`. -/
  name : String
  deriving DecidableEq, Repr

/-- A `qpid::messaging::Message`. -/
structure Message where
  /-- `getContent()`. -/
  content : String
  /-- `getReplyTo()`. -/
  replyTo : Address
  deriving DecidableEq, Repr

/-- The arguments of a `qpidReceiveCallback`: message, exchange and reply address. -/
abbrev CallbackArgs := String × String × String

/-- The identity of a `QPIDReceiver` object, in order of construction. -/
abbrev RecvId := ℕ

/-- What `mMessageReceiverThreadFunction` refers to. -/
inductive ThreadHandle where
  /-- Default constructed: no thread. -/
  | none
  /-- A thread that was not joined yet. -/
  | joinable
  /-- The thread was joined. -/
  | joined
  deriving DecidableEq, Repr

/-- The program points of `QPIDReceiver::waitForMessages`. -/
inductive WorkerPc where
  /-- The thread does not exist yet. -/
  | unborn
  /-- At `while (mReceivingActive)`. -/
  | test
  /-- In `receiverFetch`. -/
  | fetch
  /-- At `mMutex.lock()`, with the fetched message. -/
  | lock (m : Message)
  /-- `mMutex` is locked; at the call expression of the callback. -/
  | call (m : Message)
  /-- In the callback. -/
  | callback (m : Message)
  /-- At `mMutex.unlock()`. -/
  | unlock
  /-- In `sessionAcknowledge`. -/
  | acknowledge
  /-- In the catch block, at `connectionIsOpen`. -/
  | handler
  /-- In the catch block, at `closeConnection`. -/
  | handlerClose
  /-- The thread function has returned. -/
  | exited
  deriving DecidableEq, Repr

namespace WorkerPc

/-- Between `mMutex.lock()` and `mMutex.unlock()`. -/
def locked : WorkerPc → Bool
  | call _ | callback _ | unlock => true
  | _ => false

/-- In the receive loop. -/
def inLoop : WorkerPc → Bool
  | test | fetch | lock _ | call _ | callback _ | unlock | acknowledge => true
  | _ => false

/-- Past the receive loop: in the catch block, or ended. -/
def left : WorkerPc → Bool
  | handler | handlerClose | exited => true
  | _ => false

/-- In the callback. -/
def inCallback : WorkerPc → Bool
  | callback _ => true
  | _ => false

theorem locked_of_inCallback {pc : WorkerPc} (h : pc.inCallback = true) : pc.locked = true := by
  cases pc <;> simp_all [inCallback, locked]

end WorkerPc

/-- The steps of a worker, with the outcome of the call made at the step. -/
inductive WorkerAct where
  /-- The loop condition is evaluated. -/
  | test
  /-- `receiverFetch` returns `m`. -/
  | fetch (m : Message)
  | fetchThrow
  | lock
  /-- The arguments of the callback are evaluated and the callback is entered. -/
  | invoke
  | callbackReturn
  /-- The call expression of the callback throws. -/
  | callbackThrow
  | unlock
  | acknowledge
  /-- `sessionAcknowledge` throws; `applied` says whether the broker got the acknowledgement. -/
  | acknowledgeThrow (applied : Bool)
  | isOpen
  | isOpenThrow
  | close
  | closeThrow
  deriving DecidableEq, Repr

/-- A `QPIDReceiver`. -/
structure Receiver where
  mExchange : String := ""
  mReceivingActive : Bool := false
  /-- `mConnection` is open. -/
  isOpen : Bool := false
  /-- `mMessageReceiverThreadFunction`. -/
  thread : ThreadHandle := .none
  /-- Where the worker thread is. -/
  pc : WorkerPc := .unborn
  /-- The object was destroyed. -/
  destroyed : Bool := false
  /-- How often `closeConnection` was called on `mConnection`. -/
  closes : ℕ := 0
  /-- The messages fetched on the session, oldest first. -/
  fetched : List Message := []
  /-- The calls of the callback, oldest first. -/
  invoked : List CallbackArgs := []
  /-- The messages whose callback returned normally. -/
  processed : List Message := []
  /-- The messages acknowledged on the session. -/
  acked : List Message := []
  deriving DecidableEq, Repr

namespace Receiver

variable (R : Receiver)

/-- `mReceiveCallback(message.getContent(), mExchange, message.getReplyTo().getName())`. -/
def callbackArgs (exchange : String) (m : Message) : CallbackArgs :=
  (m.content, exchange, m.replyTo.name)

/-- `closeConnection(mConnection)` returns. -/
def closeConnection : Receiver := { R with isOpen := false, closes := R.closes + 1 }

/-- `closeConnection(mConnection)` throws and leaves the connection as it is. -/
def closeConnectionThrow : Receiver := { R with closes := R.closes + 1 }

/-- `sessionAcknowledge(mSession)` takes effect: everything fetched on the session is
acknowledged. -/
def sessionAcknowledge : Receiver := { R with acked := R.fetched }

/-- One step of `QPIDReceiver::waitForMessages`, without its effect on `mMutex`. -/
def waitForMessages : WorkerAct → Option Receiver := fun a =>
  match R.pc, a with
  | .test, .test => some { R with pc := if R.mReceivingActive then .fetch else .exited }
  | .fetch, .fetch m => some { R with pc := .lock m, fetched := R.fetched ++ [m] }
  | .fetch, .fetchThrow => some { R with pc := .handler }
  | .lock m, .lock => some { R with pc := .call m }
  | .call m, .invoke =>
    some { R with pc := .callback m, invoked := R.invoked ++ [callbackArgs R.mExchange m] }
  | .call _, .callbackThrow => some { R with pc := .handler }
  | .callback m, .callbackReturn => some { R with pc := .unlock, processed := R.processed ++ [m] }
  | .callback _, .callbackThrow => some { R with pc := .handler }
  | .unlock, .unlock => some { R with pc := .acknowledge }
  | .acknowledge, .acknowledge => some { R.sessionAcknowledge with pc := .test }
  | .acknowledge, .acknowledgeThrow applied =>
    some { (if applied then R.sessionAcknowledge else R) with pc := .handler }
  | .handler, .isOpen => some { R with pc := if R.isOpen then .handlerClose else .exited }
  -- an exception in the catch block leaves the thread function
  | .handler, .isOpenThrow => some { R with pc := .exited }
  | .handlerClose, .close => some { R.closeConnection with pc := .exited }
  | .handlerClose, .closeThrow => some { R.closeConnectionThrow with pc := .exited }
  | _, _ => none

end Receiver

/-- The steps of `waitForMessages`, one constructor for each program point and outcome. -/
inductive WorkStep (R : Receiver) : WorkerAct → Receiver → Prop
  | testActive : R.pc = .test → R.mReceivingActive = true → WorkStep R .test { R with pc := .fetch }
  | testInactive : R.pc = .test → R.mReceivingActive = false →
      WorkStep R .test { R with pc := .exited }
  | fetch {m : Message} : R.pc = .fetch →
      WorkStep R (.fetch m) { R with pc := .lock m, fetched := R.fetched ++ [m] }
  | fetchThrow : R.pc = .fetch → WorkStep R .fetchThrow { R with pc := .handler }
  | lock {m : Message} : R.pc = .lock m → WorkStep R .lock { R with pc := .call m }
  | invoke {m : Message} : R.pc = .call m → WorkStep R .invoke { R with
      pc := .callback m, invoked := R.invoked ++ [Receiver.callbackArgs R.mExchange m] }
  | callThrow {m : Message} : R.pc = .call m →
      WorkStep R .callbackThrow { R with pc := .handler }
  | callbackReturn {m : Message} : R.pc = .callback m →
      WorkStep R .callbackReturn { R with pc := .unlock, processed := R.processed ++ [m] }
  | callbackThrow {m : Message} : R.pc = .callback m →
      WorkStep R .callbackThrow { R with pc := .handler }
  | unlock : R.pc = .unlock → WorkStep R .unlock { R with pc := .acknowledge }
  | acknowledge : R.pc = .acknowledge →
      WorkStep R .acknowledge { R.sessionAcknowledge with pc := .test }
  | acknowledgeApplied : R.pc = .acknowledge →
      WorkStep R (.acknowledgeThrow true) { R.sessionAcknowledge with pc := .handler }
  | acknowledgeThrow : R.pc = .acknowledge →
      WorkStep R (.acknowledgeThrow false) { R with pc := .handler }
  | isOpen : R.pc = .handler → R.isOpen = true → WorkStep R .isOpen { R with pc := .handlerClose }
  | isNotOpen : R.pc = .handler → R.isOpen = false → WorkStep R .isOpen { R with pc := .exited }
  | isOpenThrow : R.pc = .handler → WorkStep R .isOpenThrow { R with pc := .exited }
  | close : R.pc = .handlerClose → WorkStep R .close { R.closeConnection with pc := .exited }
  | closeThrow : R.pc = .handlerClose →
      WorkStep R .closeThrow { R.closeConnectionThrow with pc := .exited }

/-- **The list of steps of a worker is complete.** -/
theorem Receiver.waitForMessages_cases {R R' : Receiver} {a : WorkerAct}
    (h : R.waitForMessages a = some R') : WorkStep R a R' := by
  unfold waitForMessages at h
  split at h <;> cases h <;> rename_i hpc
  · by_cases hf : R.mReceivingActive = true
    · rw [if_pos hf]
      exact .testActive hpc hf
    · rw [if_neg hf]
      exact .testInactive hpc (eq_false_of_ne_true hf)
  · exact .fetch hpc
  · exact .fetchThrow hpc
  · exact .lock hpc
  · exact .invoke hpc
  · exact .callThrow hpc
  · exact .callbackReturn hpc
  · exact .callbackThrow hpc
  · exact .unlock hpc
  · exact .acknowledge hpc
  · rename_i applied
    cases applied with
    | true => exact .acknowledgeApplied hpc
    | false => exact .acknowledgeThrow hpc
  · by_cases ho : R.isOpen = true
    · rw [if_pos ho]
      exact .isOpen hpc ho
    · rw [if_neg ho]
      exact .isNotOpen hpc (eq_false_of_ne_true ho)
  · exact .isOpenThrow hpc
  · exact .close hpc
  · exact .closeThrow hpc

/-- What a step of the worker of `r` does to `mMutex`; `none` if it cannot be taken. -/
def WorkerAct.mutex (r : RecvId) (mMutex : Option RecvId) : WorkerAct → Option (Option RecvId)
  | .lock => if mMutex = none then some (some r) else none
  | .unlock => some none
  | _ => some mMutex

/-- The step lets an exception leave the thread function. -/
def WorkerAct.escapes : WorkerAct → Bool
  | .isOpenThrow | .closeThrow => true
  | _ => false

end Comyno
