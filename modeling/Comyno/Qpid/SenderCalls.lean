import Comyno.Conc.Protocol
import Comyno.Qpid.Sender

/-!
# In which order a send calls its connector

A `QPIDSender` lives for one send.  The protocol below says which calls of `QPIDBrokerConnector` a
thread makes for its sends: a connection that was created is opened, a session and a sender are set
up on it, one message is sent, and the connection is closed before the next one is created.  A call
that fails is followed by a close; a close that fails by another one.

## Main results

* `sender_keeps_protocol` : in every run, the sends of every thread keep the protocol, and no
  connection of a send that has ended is left without a close.
-/

namespace Comyno

open Conc

/-- The calls of the connector that belong to a send. -/
inductive SenderCall where
  | createConnection
  | openConnection
  | createSession
  | createSender
  | senderSend
  | closeConnection
  deriving DecidableEq, Repr

/-- What was called last. -/
inductive SenderPhase where
  /-- There is no connection, or it was closed. -/
  | closed
  | created
  | opened
  | session
  /-- The sender exists. -/
  | sender
  | sent
  /-- A call has thrown. -/
  | failed
  deriving DecidableEq, Repr

/-- What a call with its outcome leads to. -/
def SenderPhase.next (q : SenderPhase) : SenderCall × Outcome → Option SenderPhase
  | (.createConnection, x) =>
    if q = closed then some (if x = .ok then created else closed) else none
  | (.openConnection, x) => if q = created then some (if x = .ok then opened else failed) else none
  | (.createSession, x) => if q = opened then some (if x = .ok then session else failed) else none
  | (.createSender, x) => if q = session then some (if x = .ok then sender else failed) else none
  | (.senderSend, x) => if q = sender then some (if x = .ok then sent else failed) else none
  | (.closeConnection, x) => match q with
    | sent => some (if x = .ok then closed else failed)
    -- from the catch block; with a sender that has not sent, the reply address was malformed
    | failed | sender => some closed
    | closed | created | opened | session => none

/-- The protocol of the sends of one thread. -/
def senderProtocol : Protocol (SenderCall × Outcome) SenderPhase := ⟨.closed, SenderPhase.next⟩

/-- The call at a program point of a send. -/
def SendPc.call : SendPc → Option SenderCall
  | .construct => some .createConnection
  | .openConnection => some .openConnection
  | .createSession => some .createSession
  | .createSender => some .createSender
  | .address => none
  | .senderSend _ => some .senderSend
  | .closeConnection | .handler => some .closeConnection

/-- The calls that the step `l` from `p` makes for the sends of `t`. -/
def ProcessLabel.calls (p : Process) (l : ProcessLabel) (t : Thread) :
    List (SenderCall × Outcome) :=
  match l with
  | .exec u x => match p.sender u with
    | .sending pc _ => if u = t then (pc.call.map (·, x)).toList else []
    | .idle _ => []
  | .messaging _ | .send _ _ => []

/-- The phases at a program point of a send. -/
def SendPc.InPhase : SendPc → SenderPhase → Prop
  | .construct, q => q = .closed
  | .openConnection, q => q = .created
  | .createSession, q => q = .opened
  | .createSender, q => q = .session
  | .address, q | .senderSend _, q => q = .sender
  | .closeConnection, q => q = .sent
  | .handler, q => q = .failed ∨ q = .sender

/-- The phases at a frame. -/
def SendFrame.InPhase : SendFrame → SenderPhase → Prop
  | .idle _, q => q = .closed
  | .sending pc _, q => pc.InPhase q

variable {parse : AddressParser} {args : SendArgs} {pc : SendPc} {x : Outcome} {f : SendFrame}
  {q : SenderPhase}

/-- **The call of one step is allowed.** -/
theorem SendStep.inPhase (h : SendStep parse args pc x f) (hq : pc.InPhase q) :
    ∃ q', senderProtocol.run q (pc.call.map (·, x)).toList = some q' ∧ f.InPhase q' := by
  cases h with
  | construct | constructThrow | openConnection | createSession | createSender | senderSend
  | closeConnection =>
    cases hq
    exact ⟨_, rfl, rfl⟩
  | address =>
    cases hq
    exact ⟨_, rfl, rfl⟩
  | handler | handlerThrow =>
    rcases hq with rfl | rfl
    · exact ⟨_, rfl, rfl⟩
    · exact ⟨_, rfl, rfl⟩
  | throw htry =>
    cases pc with
    | construct | handler => cases htry
    | address =>
      cases hq
      exact ⟨_, rfl, Or.inr rfl⟩
    | openConnection | createSession | createSender | senderSend | closeConnection =>
      cases hq
      exact ⟨_, rfl, Or.inl rfl⟩

/-- A thread that executes no send begins one. -/
theorem SendFrame.inPhase_construct {p : Process} {t : Thread} (args : SendArgs)
    (hidle : p.idle t = true) (hq : (p.sender t).InPhase q) :
    (sending .construct args).InPhase q := by
  unfold Process.idle at hidle
  split at hidle
  · rename_i hf
    rw [hf] at hq
    exact hq
  · cases hidle

/-- A step of the process keeps the protocol for every thread. -/
theorem ProcessStep.inPhase {p p' : Process} {l : ProcessLabel} {t : Thread}
    (hst : ProcessStep parse p l p') (hq : (p.sender t).InPhase q) :
    ∃ q', senderProtocol.run q (l.calls p t) = some q' ∧ (p'.sender t).InPhase q' := by
  cases hst with
  | messaging => exact ⟨q, rfl, hq⟩
  | @send u c _ _ hidle =>
    refine ⟨q, rfl, ?_⟩
    rw [Process.goto_sender]
    split_ifs with htu
    · subst htu
      exact SendFrame.inPhase_construct _ hidle hq
    · exact hq
  | @exec u x pc args f _ hf hst =>
    by_cases hut : u = t
    · subst hut
      rw [hf] at hq
      obtain ⟨q', hrun, hin⟩ := hst.inPhase hq
      exact ⟨q', by simpa [ProcessLabel.calls, hf] using hrun, by simpa using hin⟩
    · refine ⟨q, by simp [ProcessLabel.calls, hf, hut], ?_⟩
      rw [Process.goto_sender, if_neg (Ne.symm hut)]
      exact hq

/-- The process with the calls of the sends of each thread. -/
def tracedSends (parse : AddressParser) :
    Machine (Process × (Thread → List (SenderCall × Outcome))) ProcessLabel :=
  (process parse).traced fun p l t => l.calls p t

/-- **Every send keeps the protocol of its connector.**  In every run of the library, whatever
throws and however its threads interleave, the calls that a thread makes for its sends come in an
order that the protocol allows; and when the thread executes no send, every connection that its
sends have created was closed. -/
theorem sender_keeps_protocol {p : Process} {trace : Thread → List (SenderCall × Outcome)}
    (h : (tracedSends parse).Reachable (Process.init, fun _ => []) (p, trace)) (t : Thread) :
    ∃ q, senderProtocol.after (trace t) = some q ∧ (p.idle t = true → q = .closed) := by
  obtain ⟨q, hq, hin⟩ := Machine.keeps_protocol (C := fun _ _ => True) (P := senderProtocol)
    (I := fun _ => True) (R := fun p t q => (p.sender t).InPhase q) (fun _ _ => trivial)
    (fun _ => rfl) (fun p l p' t q _ hq _ hst => (process_step_cases hst).inPhase hq) h t
  exact ⟨q, hq, fun hidle => SendFrame.inPhase_construct ⟨"", "", ""⟩ hidle hin⟩

/-- A send whose session cannot be created. -/
theorem sender_keeps_protocol_failed : ∃ p trace,
    (tracedSends plainName).run (Process.init, fun _ => [])
      [.send (.app 0) (.qpidSendMessage "message" "exchange" ""), .exec (.app 0) .ok,
        .exec (.app 0) .ok, .exec (.app 0) .throw, .exec (.app 0) .ok] = some (p, trace) ∧
    trace (.app 0) = [(.createConnection, .ok), (.openConnection, .ok), (.createSession, .throw),
      (.closeConnection, .ok)] ∧
    ∃ q, senderProtocol.after (trace (.app 0)) = some q ∧
      (p.idle (.app 0) = true → q = .closed) := by
  have hrun : ∃ p trace, (tracedSends plainName).run (Process.init, fun _ => [])
      [.send (.app 0) (.qpidSendMessage "message" "exchange" ""), .exec (.app 0) .ok,
        .exec (.app 0) .ok, .exec (.app 0) .throw, .exec (.app 0) .ok] = some (p, trace) ∧
      trace (.app 0) = [(.createConnection, .ok), (.openConnection, .ok),
        (.createSession, .throw), (.closeConnection, .ok)] := ⟨_, _, rfl, rfl⟩
  obtain ⟨p, trace, hp, htrace⟩ := hrun
  exact ⟨p, trace, hp, htrace, sender_keeps_protocol (Machine.reachable_of_run hp) (.app 0)⟩

end Comyno
