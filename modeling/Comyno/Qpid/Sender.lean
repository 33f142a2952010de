import Comyno.Conc.Refine
import Comyno.Qpid.Ownership
import Comyno.Qpid.ReceiveLock
import Mathlib.Data.Set.Subsingleton

/-!
# Sending messages

`qpidSendMessage` constructs a `QPIDSender` for one message and calls its `sendMessage`.  The
constructor creates the connection; `sendMessage` opens it, creates session and sender, builds the
payload, hands it to the broker and closes the connection, all in one try block, and closes the
connection in the catch block.

This file adds the send operations to the machine of `Comyno.Qpid.Messaging`.  A sender is a local
object of its operation, so a send shares no state with the receivers; what the two have in common
is the thread that executes them: a callback sends on the worker that runs it.  The machine
`process` is the whole library.

`qpid::messaging::Address` is a class of the broker's client library.  Its constructor is the
parameter `parse`: the address denoted by a text, or `none` where the constructor throws.

## Main results

* `process_maps` : the machine `qpid` inside of `process`, whose invariants `process` has
  (`messaging_reachable`).
* `callbacks_subsingleton` : at most one receive callback is in progress in the whole process.
-/

namespace Comyno

/-- The constructor of `qpid::messaging::Address`; `none` if it throws. -/
abbrev AddressParser := String → Option Address

/-- `INVALID_MESSAGE`. -/
def invalidMessage : String := "INVALID MESSAGE"

/-- The arguments of `QPIDSender::sendMessage`. -/
structure SendArgs where
  exchange : String
  message : String
  replyAddress : String := ""
  deriving DecidableEq, Repr

/-- The send operations. -/
inductive SendOperation where
  | qpidSendMessage (message exchange replyAddress : String)
  | qpidSendInvalidMessage (exchange : String)
  deriving DecidableEq, Repr

/-- What the operation passes to `sendMessage`. -/
def SendOperation.args : SendOperation → SendArgs
  | .qpidSendMessage message exchange replyAddress => ⟨exchange, message, replyAddress⟩
  | .qpidSendInvalidMessage exchange => { exchange := exchange, message := invalidMessage }

/-- The program points of a send operation. -/
inductive SendPc where
  /-- At `createConnection`, in the constructor of the sender. -/
  | construct
  | openConnection
  | createSession
  | createSender
  /-- At `qpid::messaging::Address(replyAddress)`. -/
  | address
  | senderSend (payload : Message)
  | closeConnection
  /-- In the catch block, at `closeConnection`. -/
  | handler
  deriving DecidableEq, Repr

/-- In the try block of `sendMessage`. -/
def SendPc.inTry : SendPc → Bool
  | construct | handler => false
  | openConnection | createSession | createSender | address | senderSend _ | closeConnection => true

/-- What a thread executes of a sender. -/
inductive SendFrame where
  /-- Nothing; the last send ended as given. -/
  | idle (last : Option Result)
  | sending (pc : SendPc) (args : SendArgs)
  deriving DecidableEq, Repr

/-- A call of `senderSend`. -/
structure SendCall where
  /-- The exchange the sender was created for. -/
  exchange : String
  payload : Message
  outcome : Outcome
  deriving DecidableEq, Repr

/-- One step of `QPIDSender::sendMessage`, and of the constructor before it. -/
def SendArgs.sendMessage (parse : AddressParser) (args : SendArgs) :
    SendPc → Outcome → Option SendFrame
  -- the constructor is outside the try block
  | .construct, .ok => some (.sending .openConnection args)
  | .construct, .throw => some (.idle (some .threw))
  | .openConnection, .ok => some (.sending .createSession args)
  | .createSession, .ok => some (.sending .createSender args)
  | .createSender, .ok => some (.sending .address args)
  | .address, .ok =>
    (parse args.replyAddress).map fun replyTo => .sending (.senderSend ⟨args.message, replyTo⟩) args
  | .address, .throw =>
    if parse args.replyAddress = none then some (.sending .handler args) else none
  | .senderSend _, .ok => some (.sending .closeConnection args)
  | .closeConnection, .ok => some (.idle (some (.status .qpidSuccess)))
  | .handler, .ok => some (.idle (some (.status .qpidError)))
  -- the exception leaves `sendMessage`
  | .handler, .throw => some (.idle (some .threw))
  | .openConnection, .throw | .createSession, .throw | .createSender, .throw
  | .senderSend _, .throw | .closeConnection, .throw => some (.sending .handler args)

/-- The state of the process. -/
structure Process where
  messaging : State := {}
  sender : Thread → SendFrame := fun _ => .idle none
  /-- The calls of `senderSend` a thread has made, oldest first. -/
  sent : Thread → List SendCall := fun _ => []

/-- The labels of the machine. -/
inductive ProcessLabel where
  /-- A step outside the send operations. -/
  | messaging (l : Label)
  /-- `t` enters a send operation. -/
  | send (t : Thread) (c : SendOperation)
  /-- `t` executes the next program point of its send operation. -/
  | exec (t : Thread) (x : Outcome)
  deriving DecidableEq, Repr

/-- The call of `senderSend` at a program point, if there is one. -/
def SendArgs.calls (args : SendArgs) (x : Outcome) : SendPc → List SendCall
  | .senderSend payload => [⟨args.exchange, payload, x⟩]
  | _ => []

namespace Process

variable (p : Process)

/-- `t` executes no send operation. -/
def idle (t : Thread) : Bool :=
  match p.sender t with
  | .idle _ => true
  | .sending _ _ => false

/-- `t` continues at `f`. -/
def goto (t : Thread) (f : SendFrame) : Process :=
  { p with sender := Function.update p.sender t f }

/-- `t` has made further calls of `senderSend`. -/
def record (t : Thread) (calls : List SendCall) : Process :=
  { p with sent := Function.update p.sent t (p.sent t ++ calls) }

/-- One step of the process.  A thread that sends takes no other step meanwhile; in particular a
callback ends only when its send has ended. -/
def step (parse : AddressParser) (p : Process) : ProcessLabel → Option Process
  | .messaging l =>
    if ∀ t ∈ l.actor, p.idle t = true then
      (p.messaging.step l).map fun s => { p with messaging := s }
    else none
  | .send t c =>
    if p.messaging.halted = none ∧ p.messaging.ready t = true ∧ p.idle t = true then
      some (p.goto t (.sending .construct c.args))
    else none
  | .exec t x =>
    match p.messaging.halted, p.sender t with
    | none, .sending pc args =>
      (args.sendMessage parse pc x).map fun f => (p.record t (args.calls x pc)).goto t f
    | _, _ => none

end Process

/-- **The messaging library as a machine.** -/
def process (parse : AddressParser) : Conc.Machine Process ProcessLabel := ⟨Process.step parse⟩

/-- The process before any operation. -/
def Process.init : Process := {}

/-- The address parser that takes every text as a name. -/
def plainName : AddressParser := fun text => some ⟨text⟩

/-- The steps of a successful send by `t`. -/
def sendLabels (t : Thread) (c : SendOperation) : List ProcessLabel :=
  .send t c :: List.replicate 7 (.exec t .ok)

example : (((process plainName).run Process.init
    (sendLabels (.app 0) (.qpidSendMessage "message" "exchange" "reply"))).map fun p =>
      (p.sender (.app 0), p.sent (.app 0))) =
    some (.idle (some (.status .qpidSuccess)), [⟨"exchange", ⟨"message", ⟨"reply"⟩⟩, .ok⟩]) := rfl

/-! ### The steps -/

/-- The steps of a send, one constructor for each way on. -/
inductive SendStep (parse : AddressParser) (args : SendArgs) :
    SendPc → Outcome → SendFrame → Prop
  | construct : SendStep parse args .construct .ok (.sending .openConnection args)
  | constructThrow : SendStep parse args .construct .throw (.idle (some .threw))
  | openConnection : SendStep parse args .openConnection .ok (.sending .createSession args)
  | createSession : SendStep parse args .createSession .ok (.sending .createSender args)
  | createSender : SendStep parse args .createSender .ok (.sending .address args)
  | address {replyTo : Address} : parse args.replyAddress = some replyTo →
      SendStep parse args .address .ok (.sending (.senderSend ⟨args.message, replyTo⟩) args)
  | senderSend {payload : Message} :
      SendStep parse args (.senderSend payload) .ok (.sending .closeConnection args)
  | closeConnection :
      SendStep parse args .closeConnection .ok (.idle (some (.status .qpidSuccess)))
  | throw {pc : SendPc} : pc.inTry = true →
      SendStep parse args pc .throw (.sending .handler args)
  | handler : SendStep parse args .handler .ok (.idle (some (.status .qpidError)))
  | handlerThrow : SendStep parse args .handler .throw (.idle (some .threw))

theorem SendArgs.sendMessage_cases {parse : AddressParser} {args : SendArgs} {pc : SendPc}
    {x : Outcome} {f : SendFrame} (h : args.sendMessage parse pc x = some f) :
    SendStep parse args pc x f := by
  cases pc <;> cases x <;> simp only [SendArgs.sendMessage] at h
  case address.ok =>
    obtain ⟨replyTo, hr, rfl⟩ := Option.map_eq_some_iff.1 h
    exact .address hr
  case address.throw =>
    split at h <;> cases h
    exact .throw rfl
  all_goals cases h
  case construct.ok => exact .construct
  case construct.throw => exact .constructThrow
  case openConnection.ok => exact .openConnection
  case createSession.ok => exact .createSession
  case createSender.ok => exact .createSender
  case senderSend.ok => exact .senderSend
  case closeConnection.ok => exact .closeConnection
  case handler.ok => exact .handler
  case handler.throw => exact .handlerThrow
  all_goals exact .throw rfl

/-- A send never waits, and only an address can make it throw. -/
theorem SendArgs.exists_sendMessage (parse : AddressParser) (args : SendArgs) (pc : SendPc) :
    ∃ x f, args.sendMessage parse pc x = some f ∧ (x = .throw → pc = .address) := by
  cases pc with
  | address =>
    cases hr : parse args.replyAddress with
    | some replyTo => exact ⟨.ok, _, by rw [SendArgs.sendMessage, hr]; rfl, by simp⟩
    | none => exact ⟨.throw, _, by rw [SendArgs.sendMessage, if_pos hr], fun _ => rfl⟩
  | _ => exact ⟨.ok, _, rfl, by simp⟩

/-- The number of steps a send has left, at most. -/
def SendFrame.rank : SendFrame → ℕ
  | .idle _ => 0
  | .sending .construct _ => 8
  | .sending .openConnection _ => 7
  | .sending .createSession _ => 6
  | .sending .createSender _ => 5
  | .sending .address _ => 4
  | .sending (.senderSend _) _ => 3
  | .sending .closeConnection _ => 2
  | .sending .handler _ => 1

theorem SendStep.rank_lt {parse : AddressParser} {args : SendArgs} {pc : SendPc} {x : Outcome}
    {f : SendFrame} (h : SendStep parse args pc x f) :
    f.rank < (SendFrame.sending pc args).rank := by
  cases h with
  | throw hpc => cases pc <;> simp_all [SendFrame.rank, SendPc.inTry]
  | _ => simp [SendFrame.rank]

namespace Process

variable (p : Process)

@[simp] theorem goto_messaging (t : Thread) (f : SendFrame) :
    (p.goto t f).messaging = p.messaging := rfl
@[simp] theorem goto_sent (t : Thread) (f : SendFrame) : (p.goto t f).sent = p.sent := rfl
@[simp] theorem goto_sender (t u : Thread) (f : SendFrame) :
    (p.goto t f).sender u = if u = t then f else p.sender u := Function.update_apply ..

@[simp] theorem record_messaging (t : Thread) (calls : List SendCall) :
    (p.record t calls).messaging = p.messaging := rfl
@[simp] theorem record_sender (t : Thread) (calls : List SendCall) :
    (p.record t calls).sender = p.sender := rfl
@[simp] theorem record_sent (t u : Thread) (calls : List SendCall) :
    (p.record t calls).sent u = if u = t then p.sent t ++ calls else p.sent u :=
  Function.update_apply ..

end Process

/-- The steps of the machine. -/
inductive ProcessStep (parse : AddressParser) (p : Process) : ProcessLabel → Process → Prop
  | messaging {l : Label} {s : State} : (∀ t ∈ l.actor, p.idle t = true) →
      qpid.step p.messaging l = some s →
      ProcessStep parse p (.messaging l) { p with messaging := s }
  | send {t : Thread} {c : SendOperation} : p.messaging.halted = none →
      p.messaging.ready t = true → p.idle t = true →
      ProcessStep parse p (.send t c) (p.goto t (.sending .construct c.args))
  | exec {t : Thread} {x : Outcome} {pc : SendPc} {args : SendArgs} {f : SendFrame} :
      p.messaging.halted = none → p.sender t = .sending pc args → SendStep parse args pc x f →
      ProcessStep parse p (.exec t x) ((p.record t (args.calls x pc)).goto t f)

section Step

variable {parse : AddressParser} {p p' : Process} {l : ProcessLabel}

/-- **The list of steps is complete.** -/
theorem process_step_cases (h : (process parse).step p l = some p') :
    ProcessStep parse p l p' := by
  change p.step parse l = some p' at h
  cases l with
  | messaging l =>
    simp only [Process.step] at h
    split at h
    · obtain ⟨s, hst, rfl⟩ := Option.map_eq_some_iff.1 h
      exact .messaging ‹_› hst
    · cases h
  | send t c =>
    simp only [Process.step] at h
    split at h <;> cases h
    rename_i hc
    exact .send hc.1 hc.2.1 hc.2.2
  | exec t x =>
    simp only [Process.step] at h
    split at h
    · rename_i hh hf
      obtain ⟨f, hstep, rfl⟩ := Option.map_eq_some_iff.1 h
      exact .exec hh hf (SendArgs.sendMessage_cases hstep)
    · cases h

/-- A process that has ended takes no step. -/
theorem process_halted_of_step (h : (process parse).step p l = some p') :
    p.messaging.halted = none := by
  cases process_step_cases h with
  | messaging _ hst => exact (step_cases hst).1
  | send hh | exec hh => exact hh

/-- The label of the step of `qpid` that a step of `process` takes. -/
def ProcessLabel.label : ProcessLabel → Option Label
  | .messaging l => some l
  | .send _ _ | .exec _ _ => none

/-- **The library without sends runs inside the library.** -/
theorem process_maps :
    Conc.Machine.Maps (process parse) qpid Process.messaging fun _ l => l.label := by
  intro p l p' h
  cases process_step_cases h with
  | messaging _ hst => exact hst
  | send | exec => rfl

theorem messaging_reachable {C : Process → ProcessLabel → Prop}
    (h : (process parse).ReachableWhere C Process.init p) :
    qpid.Reachable State.init p.messaging :=
  process_maps.reachable h

/-- The steps outside of the sends satisfy `C`. -/
def OfMessaging (C : State → Label → Prop) (p : Process) (l : ProcessLabel) : Prop :=
  ∀ l', l.label = some l' → C p.messaging l'

theorem messaging_reachableWhere {C : State → Label → Prop}
    (h : (process parse).ReachableWhere (OfMessaging C) Process.init p) :
    qpid.ReachableWhere C State.init p.messaging :=
  process_maps.reachableWhere (fun _ _ _ hc hl => hc _ hl) h

/-- What is reachable without sends is reachable in the library. -/
theorem process_reachableWhere (parse : AddressParser) {C : State → Label → Prop} {s : State}
    (h : qpid.ReachableWhere C State.init s) :
    (process parse).ReachableWhere (OfMessaging C) Process.init { messaging := s } := by
  induction h with
  | refl => exact .refl _
  | @tail s₁ s₂ _ hst ih =>
    obtain ⟨l, hc, hst⟩ := hst
    refine ih.tail (l := .messaging l) (fun l' hl' => ?_) ?_
    · cases hl'
      exact hc
    · have hst' : s₁.step l = some s₂ := hst
      simp [process, Process.step, Process.idle, hst']

end Step

/-- A run of a machine that the library is part of, in which each object is used by its application
thread only, and the steps of the library satisfy `C`. -/
theorem raceFree_of_maps {S L : Type*} {M : Conc.Machine S L} {f : S → State}
    {g : S → L → Option Label} (hf : Conc.Machine.Maps M qpid f g) {C : Label → Prop} {m : S}
    {ls : List L} (hm : AppStops (f m))
    (hls : ∀ l ∈ ls, ∀ m l', g m l = some l' → AppOnly (f m) l' ∧ C l') :
    M.AllSteps (fun m l => ∀ l', g m l = some l' → RaceFree (f m) l' ∧ C l') m ls := by
  refine Conc.Machine.allSteps_of_invariant (I := fun m => AppStops (f m))
    (fun m l m' hm hl hst => ?_) hm (Conc.Machine.allSteps_of_labels hls)
  rcases hf.step_cases hst with ⟨hnone, hsame⟩ | ⟨l', hl', hst'⟩
  · refine ⟨fun l' hl' => ?_, by rwa [hsame]⟩
    rw [hnone] at hl'
    cases hl'
  · obtain ⟨happ, hc⟩ := hl l' hl'
    obtain ⟨hrace, hm'⟩ := hm.step happ hst'
    refine ⟨fun l'' hl'' => ?_, hm'⟩
    obtain rfl := Option.some.inj (hl'.symm.trans hl'')
    exact ⟨hrace, hc⟩

/-! ### Callbacks -/

/-- **At most one receive callback of the process is in progress**, however many objects and
receivers there are, and whatever callbacks throw or send. -/
theorem callbacks_subsingleton {parse : AddressParser} {p : Process}
    (h : (process parse).Reachable Process.init p) :
    {r : RecvId | (p.messaging.recv r).pc.inCallback = true}.Subsingleton :=
  fun _ hr _ hq => callback_unique (messaging_reachable h) hr hq

/-- The steps of `waitForMessages` from its loop condition into the callback. -/
def callbackLabels (r : RecvId) (m : Message) : List Label :=
  [.work r .test, .work r (.fetch m), .work r .lock, .work r .invoke]

/-- A callback that sends, while the worker of another receiver waits for the mutex. -/
def sendingCallback : List ProcessLabel :=
  (startLabels 0 "exchange" ++ startLabels 1 "exchange" ++
    callbackLabels 0 ⟨"first", ⟨"reply"⟩⟩ ++
    (callbackLabels 1 ⟨"second", ⟨"reply"⟩⟩).take 2).map .messaging ++
  [.send (.worker 0) (.qpidSendMessage "answer" "reply" ""), .exec (.worker 0) .ok]

theorem callbacks_subsingleton_while_sending :
    ∃ p, (process plainName).run Process.init sendingCallback = some p ∧
      (p.messaging.recv 0).pc.inCallback = true ∧
      {r : RecvId | (p.messaging.recv r).pc.inCallback = true}.Subsingleton := by
  have hrun : ∃ p, (process plainName).run Process.init sendingCallback = some p ∧
      (p.messaging.recv 0).pc.inCallback = true := ⟨_, rfl, rfl⟩
  obtain ⟨p, hp, hpc⟩ := hrun
  exact ⟨p, hp, hpc, callbacks_subsingleton (Conc.Machine.reachable_of_run hp)⟩

end Comyno
