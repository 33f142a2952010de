import Comyno.Qpid.Broker
import Comyno.Test.GetInt

/-!
# The interactive program

The program of `test/` lets its user call the messaging client from a menu.  It has three static
objects: the client `qpidMessagingClient`, the database client `postgresClient` and the map
`exchangeReply`, which holds the reply configured for an exchange.  The handlers of the menu start
receivers with one of three callbacks, and two of the callbacks use `exchangeReply` and
`postgresClient` from the worker threads of the library.  When `main` returns, the static objects
are destroyed in reverse order of construction, and only the destructor of `qpidMessagingClient`
stops the workers.

## The model

* A handler is a list of `Command`s, each of which calls the client once.  `exchangeReply` is
  written before the call or after it.
* A callback is a function from the program point to what is done there (`CallbackAct`).
* `exchangeReply` is a map without a lock.  Each access to it is one step, also where the main
  thread and a callback could access it at the same time, which leaves C++ undefined.
* `program` runs the main thread and the callbacks together with `brokered`, the library and its
  broker.  A step of the library is `ProgramLabel.library`, except that only the program calls the
  client and only it ends a callback normally.
* The use of a static object after its destruction is undefined: the process is `faulted` and
  takes no further step.

The handlers of the module of `cm_pgclient.cpp` use a client of their own, and have no effect here.

Next to the state of the program there is a record, which no step reads: the command that has
created a worker, and the replies configured before the present command.
-/

namespace Comyno

open Conc

/-! ### Menus -/

/-- What the loop of a menu does with a token. -/
inductive Choice where
  /-- "Invalid input", or an index that is not supported. -/
  | again
  | exit
  | entry (idx : ℕ)
  /-- An exception leaves `t_get_int`. -/
  | threw
  deriving DecidableEq, Repr

/-- One round of the loop of a menu with `len` entries. -/
def choose (len : ℕ) (token : List Char) : Choice :=
  match tGetInt token 0 with
  | (.error _, _) => .threw
  | (.ok ret, idx) =>
    if ret < 0 then .again
    else if idx = -1 then .exit
    else if idx < 0 ∨ len ≤ idx then .again
    else .entry idx.toNat

example : choose 10 "+4".toList = .entry 4 ∧ choose 10 "-1".toList = .exit := by decide

/-! ### Commands -/

/-- The static objects of `cm_qpid.cpp`. -/
inductive StaticObject where
  | qpidMessagingClient
  | postgresClient
  | exchangeReply
  deriving DecidableEq, Repr

/-- The static objects in order of construction. -/
def staticObjects : List StaticObject := [.qpidMessagingClient, .postgresClient, .exchangeReply]

/-- `qpidMessagingClient`, as an object of the library. -/
def client : ObjId := 0

/-- The contents of `exchangeReply`. -/
abbrev Replies := String → Option String

/-- `exchangeReply.emplace(exchange, reply)`, which keeps an entry that is there. -/
def Replies.emplace (m : Replies) (exchange reply : String) : Replies :=
  match m exchange with
  | none => Function.update m exchange (some reply)
  | some _ => m

/-- `exchangeReply[exchange]`, which inserts an empty text if there is no entry. -/
def Replies.index (m : Replies) (exchange : String) : Replies × String :=
  match m exchange with
  | none => (Function.update m exchange (some ""), "")
  | some reply => (m, reply)

/-- `exchangeReply.erase(exchange)`. -/
def Replies.erase (m : Replies) (exchange : String) : Replies := Function.update m exchange none

/-- One call of the client, with what its handler does around it. -/
inductive Command where
  | send (c : SendOperation)
  | receiveMessages (exchange : String)
  | receiveMessagesAndReply (exchange replyMessage : String)
  | receiveMessagesAndPersist (exchange : String)
  | receiveStop (exchange : String)
  deriving DecidableEq, Repr

namespace Command

/-- What the handler does before the call. -/
def prologue (m : Replies) : Command → Replies
  | .receiveMessagesAndReply exchange replyMessage => m.emplace exchange replyMessage
  | .send _ | .receiveMessages _ | .receiveMessagesAndPersist _ | .receiveStop _ => m

/-- The call. -/
def label : Command → ProcessLabel
  | .send c => .send (.app client) c
  | .receiveMessages exchange | .receiveMessagesAndReply exchange _
  | .receiveMessagesAndPersist exchange =>
    .messaging (.call (.app client) (.qpidReceiveMessages client exchange true))
  | .receiveStop exchange => .messaging (.call (.app client) (.qpidReceiveStop client exchange))

end Command

/-- The items of `cm_qpid_items`, with what their handlers read from the terminal. -/
inductive Item where
  | sendMessage (exchange message : String)
  | sendMessageWithReplyAddress (exchange message replyAddress : String)
  | sendInvalidMessage (exchange : String)
  | receiveMessages (exchange : String)
  | receiveMessagesAndReply (exchange replyMessage : String)
  | receiveMessagesAndPersist (exchange : String)
  | receiveStop (exchange : String)
  | sendMessage8Times (message : String)
  | receiveMessage4Times
  | receiveStop4Times
  deriving DecidableEq, Repr

namespace Item

/-- The position in `cm_qpid_items`. -/
def index : Item → ℕ
  | .sendMessage _ _ => 0
  | .sendMessageWithReplyAddress _ _ _ => 1
  | .sendInvalidMessage _ => 2
  | .receiveMessages _ => 3
  | .receiveMessagesAndReply _ _ => 4
  | .receiveMessagesAndPersist _ => 5
  | .receiveStop _ => 6
  | .sendMessage8Times _ => 7
  | .receiveMessage4Times => 8
  | .receiveStop4Times => 9

/-- The exchanges of the items that make several calls. -/
def exchanges : List String := ["send-queue", "send-topic", "reply-queue", "reply-topic"]

/-- The handler. -/
def commands : Item → List Command
  | .sendMessage exchange message => [.send (.qpidSendMessage message exchange "")]
  | .sendMessageWithReplyAddress exchange message replyAddress =>
    [.send (.qpidSendMessage message exchange replyAddress)]
  | .sendInvalidMessage exchange => [.send (.qpidSendInvalidMessage exchange)]
  | .receiveMessages exchange => [.receiveMessages exchange]
  | .receiveMessagesAndReply exchange replyMessage =>
    [.receiveMessagesAndReply exchange replyMessage]
  | .receiveMessagesAndPersist exchange => [.receiveMessagesAndPersist exchange]
  | .receiveStop exchange => [.receiveStop exchange]
  | .sendMessage8Times message =>
    exchanges.flatMap fun exchange =>
      List.replicate 2 (.send (.qpidSendMessage message exchange ""))
  | .receiveMessage4Times => exchanges.map .receiveMessages
  | .receiveStop4Times => exchanges.map .receiveStop

end Item

/-! ### The main thread -/

/-- The program points of the main thread. -/
inductive MainPc where
  /-- In the loop of `main`. -/
  | modules
  /-- In `enter_modules` for the module `m`. -/
  | items (m : ℕ)
  /-- In the handler of `cm_qpid_items[idx]`, which reads its input. -/
  | handler (idx : ℕ)
  /-- In a handler, before its next command. -/
  | commands (todo : List Command)
  /-- At the call of `c`. -/
  | call (c : Command) (todo : List Command)
  /-- In the call of `c`. -/
  | wait (c : Command) (todo : List Command)
  /-- At `exchangeReply.erase(exchange)`. -/
  | erase (exchange : String) (todo : List Command)
  /-- `main` has returned; the static objects `objs` are still to be destroyed. -/
  | destroy (objs : List StaticObject)
  /-- In `~QPIDMessaging`, with the static objects `objs` still to be destroyed after it. -/
  | destructor (objs : List StaticObject)
  /-- An exception has left `main`. -/
  | terminated
  deriving DecidableEq, Repr

namespace MainPc

/-- The number of items of a module. -/
def itemLen (m : ℕ) : ℕ := if m = 0 then 10 else 6

/-- A menu reads a token. -/
def read (token : List Char) : MainPc → Option MainPc
  | .modules => some (match choose 2 token with
    | .again => .modules
    | .exit => .destroy staticObjects.reverse
    | .entry idx => .items idx
    | .threw => .terminated)
  | .items m => some (match choose (itemLen m) token with
    | .again => .items m
    | .exit => .modules
    | .entry idx => if m = 0 then .handler idx else .items m
    | .threw => .terminated)
  | .handler _ | .commands _ | .call _ _ | .wait _ _ | .erase _ _ | .destroy _ | .destructor _
  | .terminated => none

/-- The main thread takes no further step. -/
def ended : MainPc → Bool
  | .terminated | .destroy [] => true
  | .modules | .items _ | .handler _ | .commands _ | .call _ _ | .wait _ _ | .erase _ _
  | .destroy (_ :: _) | .destructor _ => false

end MainPc

/-- What the operation of a frame has returned, once it has ended. -/
def Frame.returned : Frame → Option Result
  | .idle last => last
  | _ => none

/-- What a send has returned, once it has ended. -/
def SendFrame.returned : SendFrame → Option Result
  | .idle last => last
  | .sending _ _ => none

namespace Command

/-- What the call of the client has returned, once it has ended. -/
def result (p : Process) : Command → Option Result
  | .send _ => (p.sender (.app client)).returned
  | .receiveMessages _ | .receiveMessagesAndReply _ _ | .receiveMessagesAndPersist _
  | .receiveStop _ => (p.messaging.frame (.app client)).returned

/-- How the handler goes on when the call has returned. -/
def epilogue (todo : List Command) : Command → Result → MainPc
  | .receiveStop exchange, .status .qpidSuccess => .erase exchange todo
  | _, .status _ => .commands todo
  | _, .threw | _, .destroyed => .terminated

end Command

/-! ### The callbacks -/

/-- The program points of the callbacks. -/
inductive CallbackPc where
  | start
  /-- At `exchangeReply[exchange]` in the output. -/
  | print
  /-- At `exchangeReply[exchange]` in the call of `qpidSendMessage`. -/
  | argument
  /-- At `qpidSendMessage`, whose first argument is `text`. -/
  | send (text : String)
  /-- In `qpidSendMessage`. -/
  | sending
  /-- At `postgresClient.pgMessagePersist`. -/
  | persist
  /-- In `pgMessagePersist`. -/
  | persisting
  /-- At the end. -/
  | done
  /-- An exception is leaving the callback. -/
  | unwinding
  deriving DecidableEq, Repr

/-- What a callback does at a program point. -/
inductive CallbackAct where
  /-- Nothing that is shared. -/
  | goto (pc : CallbackPc)
  /-- It evaluates `exchangeReply[exchange]`. -/
  | index (exchange : String) (pc : String → CallbackPc)
  /-- It calls `qpidSendMessage(text, exchange)`. -/
  | qpidSendMessage (text exchange : String)
  /-- It waits for the end of its send. -/
  | await
  /-- It executes a step of `pgMessagePersist`. -/
  | pgMessagePersist (pc : CallbackPc)

/-- `receiveCallback`. -/
def receiveCallback (_message _exchange _replyAddress : String) : CallbackPc → Option CallbackAct
  | .start => some (.goto .done)
  | _ => none

/-- `receiveAndReplyCallback`. -/
def receiveAndReplyCallback (message exchange replyAddress : String) :
    CallbackPc → Option CallbackAct
  | .start =>
    if replyAddress ≠ "" then
      if message = "Send me an invalid!" then some (.goto (.send invalidMessage))
      else some (.goto .print)
    else some (.goto .done)
  | .print => some (.index exchange fun _ => .argument)
  | .argument => some (.index exchange .send)
  | .send text => some (.qpidSendMessage text replyAddress)
  | .sending => some .await
  | _ => none

/-- `receiveAndPersistCallback`. -/
def receiveAndPersistCallback (_message _exchange _replyAddress : String) :
    CallbackPc → Option CallbackAct
  | .start => some (.goto .persist)
  | .persist => some (.pgMessagePersist .persisting)
  | .persisting => some (.pgMessagePersist .done)
  | _ => none

/-- The callback that a command passes to `qpidReceiveMessages`. -/
def Command.callback : Command → String → String → String → CallbackPc → Option CallbackAct
  | .receiveMessages _ => receiveCallback
  | .receiveMessagesAndReply _ _ => receiveAndReplyCallback
  | .receiveMessagesAndPersist _ => receiveAndPersistCallback
  | .send _ | .receiveStop _ => fun _ _ _ _ => none

/-! ### The program -/

/-- The state of the program. -/
structure Program where
  brokered : Brokered := {}
  main : MainPc := .modules
  exchangeReply : Replies := fun _ => none
  /-- Where the callback of a worker is. -/
  callback : RecvId → CallbackPc := fun _ => .done
  /-- The command that has created the worker of a receiver; its callback is `mReceiveCallback`. -/
  startedBy : RecvId → Option Command := fun _ => none
  /-- `exchangeReply` before the present command. -/
  before : Replies := fun _ => none
  destroyed : List StaticObject := []
  /-- The object that a callback has used after its destruction. -/
  faulted : Option StaticObject := none

/-- The labels of the machine. -/
inductive ProgramLabel where
  /-- A menu reads a token. -/
  | read (token : List Char)
  /-- A handler reads its input. -/
  | input (i : Item)
  /-- Any other step of the main thread outside of the client. -/
  | main
  /-- A step of the callback of `r` outside of the client. -/
  | callback (r : RecvId)
  /-- A step of the library or its broker. -/
  | library (l : BrokeredLabel)
  deriving DecidableEq, Repr

namespace Program

variable (p : Program)

/-- The library. -/
abbrev messaging : State := p.brokered.process.messaging

/-- The receiver `r`. -/
abbrev recv (r : RecvId) : Receiver := p.messaging.recv r

/-- The process has not ended. -/
def running : Bool := !p.main.ended && p.messaging.halted.isNone && p.faulted.isNone

/-- The callback of `r` continues at `pc`. -/
def goto (r : RecvId) (pc : CallbackPc) : Program :=
  { p with callback := Function.update p.callback r pc }

/-- The use of a static object by a callback, which leads to `q` if the object still exists. -/
def use (X : StaticObject) (q : Program) : Program :=
  if X ∈ p.destroyed then { p with faulted := some X } else q

/-- A step of the main thread. -/
def stepMain (parse : AddressParser) : Option Program :=
  match p.main with
  | .commands [] => some { p with main := .items 0 }
  | .commands (c :: todo) => some { p with
      main := .call c todo
      exchangeReply := c.prologue p.exchangeReply
      before := p.exchangeReply }
  | .call c todo =>
    (p.brokered.step parse (.step c.label)).map fun b =>
      { p with main := .wait c todo, brokered := b }
  | .wait c todo =>
    (c.result p.brokered.process).map fun res => { p with main := c.epilogue todo res }
  | .erase exchange todo => some { p with
      main := .commands todo
      exchangeReply := p.exchangeReply.erase exchange }
  | .destroy (.qpidMessagingClient :: objs) =>
    (p.brokered.step parse (.step (.messaging (.call (.app client) (.destructor client))))).map
      fun b => { p with main := .destructor objs, brokered := b }
  | .destroy (X :: objs) => some { p with main := .destroy objs, destroyed := X :: p.destroyed }
  | .destructor objs =>
    if p.messaging.frame (.app client) = .idle (some .destroyed) then
      some { p with main := .destroy objs, destroyed := .qpidMessagingClient :: p.destroyed }
    else none
  | .modules | .items _ | .handler _ | .destroy [] | .terminated => none

/-- What the callback of `r` does next, if the worker of `r` is in its callback. -/
def act (r : RecvId) : Option CallbackAct :=
  match (p.recv r).pc, p.startedBy r with
  | .callback m, some c => c.callback m.content (p.recv r).mExchange m.replyTo.name (p.callback r)
  | _, _ => none

/-- A step of the callback of `r`. -/
def stepCallback (parse : AddressParser) (r : RecvId) : Option Program :=
  match p.act r with
  | some (.goto pc) => some (p.goto r pc)
  | some (.index exchange pc) =>
    let (replies, text) := p.exchangeReply.index exchange
    some (p.use .exchangeReply { p.goto r (pc text) with exchangeReply := replies })
  | some (.qpidSendMessage text exchange) =>
    (p.brokered.step parse (.step (.send (.worker r) (.qpidSendMessage text exchange "")))).map
      fun b => { p.goto r .sending with brokered := b }
  | some .await =>
    (p.brokered.process.sender (.worker r)).returned.map fun res =>
      p.goto r (if res = .threw then .unwinding else .done)
  | some (.pgMessagePersist pc) => some (p.use .postgresClient (p.goto r pc))
  | none => none

/-- The step of the library is not one that the program takes. -/
def allows : BrokeredLabel → Bool
  | .step (.messaging (.call _ _)) | .step (.send _ _) => false
  | .step (.messaging (.work r .callbackReturn)) => p.callback r = .done
  | _ => true

/-- Where the callbacks are after the step `l` of the library. -/
def enter : BrokeredLabel → RecvId → CallbackPc
  | .step (.messaging (.work r .invoke)) => Function.update p.callback r .start
  | _ => p.callback

/-- The receiver whose worker the step of the library creates, with the command that does it. -/
def creates : BrokeredLabel → Option (RecvId × Command)
  | .step (.messaging (.exec t .ok)) =>
    match p.messaging.frame t, p.main with
    | .start .createThread _ _ r, .wait c _ => some (r, c)
    | _, _ => none
  | _ => none

/-- The commands that have created the workers, after the step `l` of the library. -/
def recordStarted (l : BrokeredLabel) : RecvId → Option Command :=
  match p.creates l with
  | some (r, c) => Function.update p.startedBy r (some c)
  | none => p.startedBy

/-- One step of the program. -/
def step (parse : AddressParser) (p : Program) (l : ProgramLabel) : Option Program :=
  if p.running then
    match l with
    | .read token => (p.main.read token).map fun pc => { p with main := pc }
    | .input i => match p.main with
      | .handler idx => if i.index = idx then some { p with main := .commands i.commands } else none
      | _ => none
    | .main => p.stepMain parse
    | .callback r => p.stepCallback parse r
    | .library l =>
      if p.allows l then
        (p.brokered.step parse l).map fun b => { p with
          brokered := b
          callback := p.enter l
          startedBy := p.recordStarted l }
      else none
  else none

end Program

/-- **The interactive program as a machine.** -/
def program (parse : AddressParser) : Machine Program ProgramLabel := ⟨Program.step parse⟩

/-! ### Runs -/

/-- The module of the client is entered, and one of its items. -/
def itemLabels (i : Item) : List ProgramLabel :=
  [.read ['0'], .read (Nat.toDigits 10 i.index), .input i]

/-- Steps of the library outside of its sends. -/
def libraryLabels (ls : List Label) : List ProgramLabel :=
  (messagingSteps ls).map .library

/-- A handler, from the menu of its module on, which makes one call of the client. -/
def handlerLabels (i : Item) (ls : List Label) : List ProgramLabel :=
  (itemLabels i).tail ++ [.main, .main] ++ libraryLabels ls

/-- A start that succeeds. -/
def successLabels (i : Item) : List ProgramLabel :=
  handlerLabels i (List.replicate 6 (.exec (.app client) .ok)) ++ [.main, .main]

/-- The worker of `r` receives the message `d`, and its callback goes on to its send. -/
def answerLabels (r : RecvId) (d : ℕ) : List ProgramLabel :=
  libraryLabels [.work r .test] ++ [.library (.fetch r d)] ++
    libraryLabels [.work r .lock, .work r .invoke] ++ List.replicate 3 (.callback r)

/-- A request arrives. -/
def requestLabel : ProgramLabel := .library (.arrive ⟨"exchange", ⟨"request", ⟨"answers"⟩⟩⟩)

/-- A receiver that answers a request. -/
def configuredLabels : List ProgramLabel :=
  [.read ['0']] ++ successLabels (.receiveMessagesAndReply "exchange" "reply") ++ [requestLabel] ++
    answerLabels 0 0

end Comyno
