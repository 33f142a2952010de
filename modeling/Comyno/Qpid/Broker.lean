import Comyno.Conc.Broker
import Comyno.Qpid.Acknowledge
import Comyno.Qpid.Sender
import Mathlib.Data.List.Forall2

/-!
# The library and its broker

So far the broker was outside of the model: `receiverFetch` could return any message, and
`sessionAcknowledge` could return at any time.  Here the process runs with a broker of the kind of
`Conc.Broker`, whose sessions are the receivers:

* `senderSend` publishes a message to an exchange, and so does any other client (`arrive`);
* `receiverFetch` returns a message of the exchange of its receiver that is in the queue;
* `sessionAcknowledge` reaches the broker only on an open connection;
* what a session holds when its connection closes returns to the queue.

Exchanges are queues here.  A topic, which keeps no message and copies it to each of its
subscribers, is left out.

Next to the broker the state keeps a record, which no step reads: the messages each receiver has
fetched and each thread has sent, and the receivers that were stopped.

## Main results

* `brokered_maps` : the process inside of the machine, whose invariants it has.
* `Books` : what the broker and a receiver know of each other; `books_of_reachable`.
-/

namespace Comyno

open Conc

/-- A message on its way. -/
structure Delivery where
  exchange : String
  message : Message
  deriving DecidableEq, Repr

/-- The connection of a receiver is closed. -/
def Process.closed (p : Process) (r : RecvId) : Bool := !(p.messaging.recv r).isOpen

/-- The process and its broker. -/
structure Brokered where
  process : Process := {}
  broker : Broker Delivery RecvId := {}
  /-- The messages that a receiver has fetched, oldest first. -/
  fetched : RecvId → List ℕ := fun _ => []
  /-- The messages that a thread has sent, oldest first. -/
  sent : Thread → List ℕ := fun _ => []
  /-- The receivers whose `receiveStop` returned `QPID_SUCCESS` to a `qpidReceiveStop`, which
  returns it in turn. -/
  stopped : List RecvId := []

/-- The labels of the machine. -/
inductive BrokeredLabel where
  /-- Another client publishes a message. -/
  | arrive (a : Delivery)
  /-- `receiverFetch` of `r` returns the message `d`. -/
  | fetch (r : RecvId) (d : ℕ)
  /-- Any other step of the process. -/
  | step (l : ProcessLabel)
  deriving DecidableEq, Repr

namespace Brokered

variable (b : Brokered)

/-- The receiver `r`. -/
abbrev recv (r : RecvId) : Receiver := b.process.messaging.recv r

/-- The broker takes part in the step: messages come from its queues, and it gets an
acknowledgement only on an open connection. -/
def allows : ProcessLabel → Bool
  | .messaging (.work _ (.fetch _)) => false
  | .messaging (.work r .acknowledge) => (b.recv r).isOpen
  | .messaging (.work r (.acknowledgeThrow true)) => (b.recv r).isOpen
  | _ => true

/-- The message that `t` hands to the broker by the next step of its send. -/
def sends (t : Thread) : Option Delivery :=
  match b.process.sender t with
  | .sending (.senderSend payload) args => some ⟨args.exchange, payload⟩
  | _ => none

/-- The broker after the step `l` of the process. -/
def serve : ProcessLabel → Broker Delivery RecvId
  | .messaging (.work r .acknowledge) => b.broker.acknowledge r
  | .messaging (.work r (.acknowledgeThrow true)) => b.broker.acknowledge r
  | .exec t .ok => match b.sends t with
    | some a => b.broker.publish a
    | none => b.broker
  | _ => b.broker

/-- The messages sent after the step `l` of the process. -/
def recordSent : ProcessLabel → Thread → List ℕ
  | .exec t .ok => match b.sends t with
    | some _ => Function.update b.sent t (b.sent t ++ [b.broker.published.length])
    | none => b.sent
  | _ => b.sent

/-- The receiver that a step of `t` to `p` stops with `QPID_SUCCESS`, if it does. -/
def stops (t : Thread) (p : Process) : Option RecvId :=
  match b.process.messaging.frame t, p.messaging.frame t with
  | .stop _ (.receiveStop _ _) r, .erase _ _ .qpidSuccess => some r
  | _, _ => none

/-- The receivers stopped after the step `l` of the process to `p`. -/
def recordStopped (p : Process) : ProcessLabel → List RecvId
  | .messaging (.exec t _) => b.stopped ++ (b.stops t p).toList
  | _ => b.stopped

/-- One step of the process with its broker. -/
def step (parse : AddressParser) (b : Brokered) : BrokeredLabel → Option Brokered
  | .arrive a => some { b with broker := b.broker.publish a }
  | .fetch r d =>
    match b.broker.published[d]? with
    | some a =>
      if (b.recv r).isOpen = true ∧ b.broker.place d = .queued ∧ a.exchange = (b.recv r).mExchange
      then
        (b.process.step parse (.messaging (.work r (.fetch a.message)))).map fun p =>
          { b with
            process := p
            broker := b.broker.deliver r d
            fetched := Function.update b.fetched r (b.fetched r ++ [d]) }
      else none
    | none => none
  | .step l =>
    if b.allows l = true then
      (b.process.step parse l).map fun p =>
        { process := p
          broker := (b.serve l).close p.closed
          fetched := b.fetched
          sent := b.recordSent l
          stopped := b.recordStopped p l }
    else none

end Brokered

/-- **The library with its broker as a machine.** -/
def brokered (parse : AddressParser) : Machine Brokered BrokeredLabel := ⟨Brokered.step parse⟩

/-- Steps of the process outside of its sends. -/
def messagingSteps (ls : List Label) : List BrokeredLabel := ls.map fun l => .step (.messaging l)

/-! ### The steps -/

/-- The state after `receiverFetch` of `r` has returned the message `d`. -/
def Brokered.afterFetch (b : Brokered) (r : RecvId) (d : ℕ) (s : State) : Brokered :=
  { b with
    process := { b.process with messaging := s }
    broker := b.broker.deliver r d
    fetched := Function.update b.fetched r (b.fetched r ++ [d]) }

/-- The state after another step of the process. -/
def Brokered.afterStep (b : Brokered) (l : ProcessLabel) (p : Process) : Brokered where
  process := p
  broker := (b.serve l).close p.closed
  fetched := b.fetched
  sent := b.recordSent l
  stopped := b.recordStopped p l

@[simp] theorem Brokered.afterStep_process (b : Brokered) (l : ProcessLabel) (p : Process) :
    (b.afterStep l p).process = p := rfl
@[simp] theorem Brokered.afterStep_fetched (b : Brokered) (l : ProcessLabel) (p : Process) :
    (b.afterStep l p).fetched = b.fetched := rfl
@[simp] theorem Brokered.afterStep_sent (b : Brokered) (l : ProcessLabel) (p : Process) :
    (b.afterStep l p).sent = b.recordSent l := rfl

/-- The steps of the machine. -/
inductive BrokeredStep (parse : AddressParser) (b : Brokered) : BrokeredLabel → Brokered → Prop
  | arrive {a : Delivery} : BrokeredStep parse b (.arrive a) { b with broker := b.broker.publish a }
  | fetch {r : RecvId} {d : ℕ} {m : Message} {s : State} :
      b.broker.published[d]? = some ⟨(b.recv r).mExchange, m⟩ → (b.recv r).isOpen = true →
      b.broker.place d = .queued →
      (process parse).step b.process (.messaging (.work r (.fetch m))) =
        some { b.process with messaging := s } →
      qpid.step b.process.messaging (.work r (.fetch m)) = some s →
      BrokeredStep parse b (.fetch r d) (b.afterFetch r d s)
  | step {l : ProcessLabel} {p : Process} : b.allows l = true →
      (process parse).step b.process l = some p →
      BrokeredStep parse b (.step l) (b.afterStep l p)

section Step

variable {parse : AddressParser} {b b' : Brokered} {l : BrokeredLabel}

/-- **The list of steps is complete.** -/
theorem brokered_step_cases (h : (brokered parse).step b l = some b') :
    BrokeredStep parse b l b' := by
  change b.step parse l = some b' at h
  cases l with
  | arrive a =>
    cases h
    exact .arrive
  | fetch r d =>
    simp only [Brokered.step] at h
    split at h
    · rename_i a ha
      split at h
      · rename_i hc
        obtain ⟨hopen, hplace, hexchange⟩ := hc
        obtain ⟨p, hp, rfl⟩ := Option.map_eq_some_iff.1 h
        have hp' : (process parse).step b.process (.messaging (.work r (.fetch a.message))) =
            some p := hp
        cases process_step_cases hp' with
        | messaging _ hst =>
          exact .fetch (m := a.message) (by rw [ha, ← hexchange]) hopen hplace hp' hst
      · cases h
    · cases h
  | step l =>
    simp only [Brokered.step] at h
    split at h
    · obtain ⟨p, hp, rfl⟩ := Option.map_eq_some_iff.1 h
      exact .step ‹_› hp
    · cases h

/-- The label of the step of the process that a step takes. -/
def BrokeredLabel.label (b : Brokered) : BrokeredLabel → Option ProcessLabel
  | .arrive _ => none
  | .fetch r d => (b.broker.published[d]?).map fun a => .messaging (.work r (.fetch a.message))
  | .step l => some l

/-- **The process runs inside of the process with its broker.** -/
theorem brokered_maps (parse : AddressParser) :
    Machine.Maps (brokered parse) (process parse) Brokered.process fun b l => l.label b := by
  intro b l b' h
  cases brokered_step_cases h with
  | arrive => rfl
  | fetch ha _ _ hp _ =>
    simp only [BrokeredLabel.label, ha, Option.map_some]
    exact hp
  | step _ hp => exact hp

/-- The label of the step of the library without sends that a step takes. -/
def BrokeredLabel.messaging (b : Brokered) (l : BrokeredLabel) : Option Label :=
  (l.label b).bind ProcessLabel.label

/-- A step of the library without sends is one of the process, or a fetch. -/
theorem BrokeredLabel.messaging_cases {l : BrokeredLabel} {l' : Label}
    (h : l.messaging b = some l') :
    l = .step (.messaging l') ∨ ∃ r d m, l = .fetch r d ∧ l' = .work r (.fetch m) := by
  cases l with
  | arrive => cases h
  | fetch r d =>
    cases ha : b.broker.published[d]? with
    | none => simp [BrokeredLabel.messaging, BrokeredLabel.label, ha] at h
    | some a =>
      simp only [BrokeredLabel.messaging, BrokeredLabel.label, ha] at h
      cases h
      exact Or.inr ⟨r, d, a.message, rfl, rfl⟩
  | step l =>
    cases l with
    | messaging l =>
      cases h
      exact Or.inl rfl
    | send | exec => cases h

theorem brokered_maps_messaging (parse : AddressParser) :
    Machine.Maps (brokered parse) qpid (fun b => b.process.messaging) fun b l => l.messaging b :=
  (brokered_maps parse).comp process_maps

theorem qpid_reachable_of_brokered {C : Brokered → BrokeredLabel → Prop}
    (h : (brokered parse).ReachableWhere C {} b) :
    qpid.Reachable State.init b.process.messaging :=
  (brokered_maps_messaging parse).reachable h

end Step

/-! ### The places of the messages -/

/-- The broker gets an acknowledgement by the step. -/
def WorkerAct.acknowledges : WorkerAct → Bool
  | .acknowledge => true
  | .acknowledgeThrow applied => applied
  | _ => false

/-- The broker gets an acknowledgement of the session of `r` by the step. -/
def ProcessLabel.acknowledges (r : RecvId) : ProcessLabel → Bool
  | .messaging (.work q a) => decide (r = q) && a.acknowledges
  | _ => false

theorem ProcessLabel.acknowledges_eq_false {l : ProcessLabel} {r : RecvId}
    (h : ∀ q, l ≠ .messaging (.work q .acknowledge))
    (h' : ∀ q, l ≠ .messaging (.work q (.acknowledgeThrow true))) : l.acknowledges r = false := by
  unfold ProcessLabel.acknowledges
  split
  · rename_i q a
    cases a with
    | acknowledge => exact absurd rfl (h q)
    | acknowledgeThrow applied =>
      cases applied with
      | true => exact absurd rfl (h' q)
      | false => simp [WorkerAct.acknowledges]
    | _ => simp [WorkerAct.acknowledges]
  · rfl

namespace Brokered

variable {b : Brokered} {l : ProcessLabel} {r : RecvId} {d : ℕ}

/-- A message that was published keeps its name. -/
theorem getElem?_serve {a : Delivery} (h : b.broker.published[d]? = some a) :
    (b.serve l).published[d]? = some a := by
  unfold serve
  split <;> try exact h
  split
  · exact b.broker.getElem?_publish _ h
  · exact h

theorem isOpen_of_allows (h : b.allows l = true) (ha : l.acknowledges r = true) :
    (b.recv r).isOpen = true := by
  unfold allows at h
  split at h
  · cases h
  · simp_all [ProcessLabel.acknowledges]
  · simp_all [ProcessLabel.acknowledges]
  · rename_i h₁ h₂
    rw [ProcessLabel.acknowledges_eq_false h₁ h₂] at ha
    cases ha

theorem place_serve_eq_acked : (b.serve l).place d = .acked r ↔
    b.broker.place d = .acked r ∨ l.acknowledges r = true ∧ b.broker.place d = .held r := by
  unfold serve
  split
  · rw [Broker.place_acknowledge_eq_acked]
    exact or_congr Iff.rfl (by simp +contextual [ProcessLabel.acknowledges, WorkerAct.acknowledges])
  · rw [Broker.place_acknowledge_eq_acked]
    exact or_congr Iff.rfl (by simp +contextual [ProcessLabel.acknowledges, WorkerAct.acknowledges])
  · split <;> simp [ProcessLabel.acknowledges]
  · rename_i h₁ h₂ _
    simp [ProcessLabel.acknowledges_eq_false h₁ h₂]

theorem place_serve_eq_held : (b.serve l).place d = .held r ↔
    b.broker.place d = .held r ∧ l.acknowledges r = false := by
  unfold serve
  split
  · rw [Broker.place_acknowledge_eq_held]
    simp [ProcessLabel.acknowledges, WorkerAct.acknowledges]
  · rw [Broker.place_acknowledge_eq_held]
    simp [ProcessLabel.acknowledges, WorkerAct.acknowledges]
  · split <;> simp [ProcessLabel.acknowledges]
  · rename_i h₁ h₂ _
    simp [ProcessLabel.acknowledges_eq_false h₁ h₂]

end Brokered

/-- A published message stays what it is. -/
theorem BrokeredStep.published {parse : AddressParser} {b b' : Brokered} {l : BrokeredLabel}
    (h : BrokeredStep parse b l b') {d : ℕ} {a : Delivery}
    (hd : b.broker.published[d]? = some a) : b'.broker.published[d]? = some a := by
  cases h with
  | arrive => exact b.broker.getElem?_publish _ hd
  | fetch => exact hd
  | step => exact Brokered.getElem?_serve hd

/-- The session of a receiver goes on, or it is set up anew before anything is fetched. -/
structure Session (R R' : Receiver) : Prop where
  fetched : R'.fetched = R.fetched
  exchange : R.fetched ≠ [] → R'.mExchange = R.mExchange
  isOpen : R.fetched ≠ [] → R'.isOpen = true → R.isOpen = true

/-- What a step of its worker does to the session of a receiver. -/
theorem WorkStep.session {R R' : Receiver} {a : WorkerAct} (h : WorkStep R a R')
    (ha : ∀ m, a ≠ .fetch m) :
    Session R R' ∧ R'.acked = if a.acknowledges then R.fetched else R.acked := by
  cases h with
  | @fetch m => exact absurd rfl (ha m)
  | close => exact ⟨⟨rfl, fun _ => rfl, fun _ ho => by cases ho⟩, rfl⟩
  | _ => exact ⟨⟨rfl, fun _ => rfl, fun _ => id⟩, rfl⟩

/-- Only an acknowledgement changes what is acknowledged on the session of `r`, and nothing but a
fetch changes what is fetched. -/
theorem ProcessStep.session {parse : AddressParser} {p p' : Process} {l : ProcessLabel}
    (h : ProcessStep parse p l p') (hb : Born p.messaging) (r : RecvId)
    {L : Conc.Ledger Message} (hr : Records (p.messaging.recv r) L)
    (hl : ∀ m, l ≠ .messaging (.work r (.fetch m))) :
    Session (p.messaging.recv r) (p'.messaging.recv r) ∧ (p'.messaging.recv r).acked =
      if l.acknowledges r then (p.messaging.recv r).fetched else (p.messaging.recv r).acked := by
  have hempty : ∀ t pc o e, p.messaging.frame t = .start pc o e r →
      (p.messaging.recv r).fetched = [] := by
    intro t pc o e hf
    have hpc := (hb.wf r).unborn_iff.2 (hb.start_thread t pc o e r hf)
    rw [hr.fetched, hr.empty_of_unborn hpc]
    rfl
  cases h with
  | send | exec => exact ⟨⟨rfl, fun _ => rfl, fun _ => id⟩, rfl⟩
  | @messaging l s _ hst =>
    have hst := (step_cases hst).2
    by_cases hw : ∃ a, l = .work r a
    · obtain ⟨a, rfl⟩ := hw
      cases hst with
      | work _ _ hw =>
        obtain ⟨hs, ha⟩ := hw.session fun m hm => hl m (by rw [hm])
        simpa [ProcessLabel.acknowledges] using And.intro hs ha
    · have hack : ProcessLabel.acknowledges r (.messaging l) = false := by
        unfold ProcessLabel.acknowledges
        split
        · rename_i q a heq
          cases heq
          simp [show r ≠ q from fun hrq => hw ⟨a, by rw [hrq]⟩]
        · rfl
      have hm := hst.recv_move r
      rw [hack]
      show Session _ (s.recv r) ∧ (s.recv r).acked = _
      generalize s.recv r = R at hm
      cases hm with
      | work => exact absurd ⟨_, rfl⟩ hw
      | opened hf | named hf | activated hf | spawned hf =>
        have hnil := hempty _ _ _ _ hf
        exact ⟨⟨rfl, fun hne => absurd hnil hne, fun hne => absurd hnil hne⟩, rfl⟩
      | lost | closed => exact ⟨⟨rfl, fun _ => rfl, fun _ ho => by cases ho⟩, rfl⟩
      | same | deactivated | closeThrew | joined | destroyed | joinDestroyed =>
        exact ⟨⟨rfl, fun _ => rfl, fun _ => id⟩, rfl⟩

/-! ### What the broker and a receiver know of each other -/

/-- The books of the receiver `r` and of the broker agree. -/
structure Books (b : Brokered) (r : RecvId) : Prop where
  fetched : List.Forall₂ (fun d m => b.broker.published[d]? = some ⟨(b.recv r).mExchange, m⟩)
    (b.fetched r) (b.recv r).fetched
  /-- No message is fetched twice on a session. -/
  nodup : (b.fetched r).Nodup
  acked : ∀ d, b.broker.place d = .acked r ↔ d ∈ (b.fetched r).take (b.recv r).acked.length
  /-- The session holds what was fetched and is not acknowledged, until its connection closes. -/
  held : ∀ d, b.broker.place d = .held r ↔
    (b.recv r).isOpen = true ∧ d ∈ (b.fetched r).drop (b.recv r).acked.length

namespace Books

variable {parse : AddressParser} {b b' : Brokered} {r : RecvId}

theorem length_fetched (h : Books b r) : (b.fetched r).length = (b.recv r).fetched.length :=
  h.fetched.length_eq

/-- A session never fetches what it has fetched before. -/
theorem not_mem_of_queued (h : Books b r) (ho : (b.recv r).isOpen = true) {d : ℕ}
    (hd : b.broker.place d = .queued) : d ∉ b.fetched r := by
  intro hmem
  rw [← List.take_append_drop (b.recv r).acked.length (b.fetched r), List.mem_append] at hmem
  rcases hmem with hmem | hmem
  · rw [(h.acked d).2 hmem] at hd
    cases hd
  · rw [(h.held d).2 ⟨ho, hmem⟩] at hd
    cases hd

theorem init (r : RecvId) : Books {} r where
  fetched := .nil
  nodup := List.nodup_nil
  acked d := by simp
  held d := by simp

/-- Another client publishes a message. -/
theorem arrive (h : Books b r) (a : Delivery) :
    Books { b with broker := b.broker.publish a } r where
  fetched := h.fetched.imp fun _ _ hd => b.broker.getElem?_publish a hd
  nodup := h.nodup
  acked := h.acked
  held := h.held

/-- `r` fetches the message `d`. -/
theorem fetch (h : Books b r) {d : ℕ} {m : Message} {s : State}
    (hd : b.broker.published[d]? = some ⟨(b.recv r).mExchange, m⟩)
    (ho : (b.recv r).isOpen = true) (hq : b.broker.place d = .queued)
    (ha : (b.recv r).acked.length = (b.recv r).fetched.length)
    (hs : s.recv r = { b.recv r with pc := .lock m, fetched := (b.recv r).fetched ++ [m] }) :
    Books (b.afterFetch r d s) r := by
  have hnew := h.not_mem_of_queued ho hq
  have hlen : (b.recv r).acked.length = (b.fetched r).length := ha.trans h.length_fetched.symm
  have hR : (b.afterFetch r d s).recv r = { b.recv r with
      pc := .lock m, fetched := (b.recv r).fetched ++ [m] } := hs
  have hF : (b.afterFetch r d s).fetched r = b.fetched r ++ [d] := by simp [Brokered.afterFetch]
  have hP : (b.afterFetch r d s).broker = b.broker.deliver r d := rfl
  constructor
  · rw [hR, hF, hP]
    exact List.rel_append h.fetched (.cons hd .nil)
  · rw [hF, ← List.concat_eq_append]
    exact h.nodup.concat hnew
  · intro x
    rw [hR, hF, hP, Broker.place_deliver, List.take_append_of_le_length hlen.le, ← h.acked]
    split_ifs with hx
    · simp [hx, hq]
    · rfl
  · intro x
    rw [hR, hF, hP, Broker.place_deliver, hlen, List.drop_left]
    split_ifs with hx
    · simp [hx, ho]
    · rw [h.held, hlen]
      simp [hx]

/-- Another receiver fetches the message `d`. -/
theorem fetch_of_ne (h : Books b r) {q : RecvId} (hne : r ≠ q) {d : ℕ} {s : State}
    (hq : b.broker.place d = .queued) (hs : s.recv r = b.recv r) :
    Books (b.afterFetch q d s) r := by
  have hR : (b.afterFetch q d s).recv r = b.recv r := hs
  have hF : (b.afterFetch q d s).fetched r = b.fetched r := by simp [Brokered.afterFetch, hne]
  have hP : (b.afterFetch q d s).broker = b.broker.deliver q d := rfl
  constructor
  · rw [hR, hF, hP]
    exact h.fetched
  · rw [hF]
    exact h.nodup
  · intro x
    rw [hR, hF, hP, Broker.place_deliver, ← h.acked]
    split_ifs with hx
    · simp [hx, hq]
    · rfl
  · intro x
    rw [hR, hF, hP, Broker.place_deliver, ← h.held]
    split_ifs with hx
    · simp [hx, hq, hne.symm]
    · rfl

/-- Any other step of the process. -/
theorem step (h : Books b r) {l : ProcessLabel} {p : Process}
    (hs : Session (b.recv r) (p.messaging.recv r))
    (ha : (p.messaging.recv r).acked =
      if l.acknowledges r then (b.recv r).fetched else (b.recv r).acked)
    (ho : l.acknowledges r = true → (b.recv r).isOpen = true) : Books (b.afterStep l p) r := by
  have hnil : (b.recv r).fetched = [] → b.fetched r = [] := fun he =>
    List.length_eq_zero_iff.1 (h.length_fetched.trans (by rw [he]; rfl))
  have hF : (b.afterStep l p).fetched r = b.fetched r := rfl
  have hR : (b.afterStep l p).recv r = p.messaging.recv r := rfl
  have hP : (b.afterStep l p).broker = (b.serve l).close p.closed := rfl
  have hclosed : p.closed r = false ↔ (p.messaging.recv r).isOpen = true := by
    simp [Process.closed]
  constructor
  · rw [hF, hR, hP, hs.fetched]
    by_cases he : (b.recv r).fetched = []
    · rw [he, hnil he]
      exact .nil
    · rw [hs.exchange he]
      exact h.fetched.imp fun _ _ => Brokered.getElem?_serve
  · exact h.nodup
  · intro d
    rw [hF, hR, hP, Broker.place_close_eq_acked, Brokered.place_serve_eq_acked, ha, h.acked, h.held]
    cases hl : l.acknowledges r with
    | false => simp
    | true =>
      have happ := List.take_append_drop (b.recv r).acked.length (b.fetched r)
      simp only [ho hl, true_and, if_true, ← h.length_fetched, List.take_length]
      rw [← List.mem_append, happ]
  · intro d
    rw [hF, hR, hP, Broker.place_close_eq_held, Brokered.place_serve_eq_held, hclosed, ha, h.held]
    cases hl : l.acknowledges r with
    | true => simp [← h.length_fetched]
    | false =>
      simp only [and_true, Bool.false_eq_true, if_false]
      by_cases he : (b.recv r).fetched = []
      · simp [hnil he]
      · constructor
        · exact fun hd => ⟨hd.2, hd.1.2⟩
        · exact fun hd => ⟨⟨hs.isOpen he hd.1, hd.2⟩, hd.1⟩

end Books

section Reachable

variable {parse : AddressParser} {C : Brokered → BrokeredLabel → Prop} {b : Brokered}

theorem BrokeredStep.books {b' : Brokered} {l : BrokeredLabel} (h : BrokeredStep parse b l b')
    (hb : Born b.process.messaging) {r : RecvId} {L : Conc.Ledger Message}
    (hr : Records (b.recv r) L) (hs : Books b r) : Books b' r := by
  cases h with
  | arrive => exact hs.arrive _
  | @fetch q d m s hd ho hq _ hst =>
    have hm := (step_cases hst).2
    cases hm with
    | work _ _ hw =>
      by_cases hrq : r = q
      · subst hrq
        cases hw with
        | fetch hpc =>
          have hk := hr.pc
          rw [show (b.process.messaging.recv r).pc = .fetch from hpc] at hk
          have hlen : (b.recv r).acked.length = (b.recv r).fetched.length := by
            rw [hr.acked, hr.fetched, L.length_ackedList]
            exact hk
          exact hs.fetch hd ho hq hlen (by simp)
      · exact hs.fetch_of_ne hrq hq (by simp [hrq])
  | @step l p hl hp =>
    have hfetch : ∀ m, l ≠ .messaging (.work r (.fetch m)) := by
      rintro m rfl
      cases hl
    obtain ⟨hsession, hacked⟩ := (process_step_cases hp).session hb r hr hfetch
    exact hs.step hsession hacked (Brokered.isOpen_of_allows hl)

/-- **The books of every receiver agree with those of the broker.** -/
theorem books_of_reachable (h : (brokered parse).ReachableWhere C {} b) (r : RecvId) :
    Books b r :=
  h.invariant_of (fun _ hr => qpid_reachable_of_brokered hr) (Books.init r)
    fun _ _ _ hr hs _ hst => by
      obtain ⟨L, hL⟩ := records_of_reachable hr r
      exact (brokered_step_cases hst).books (born_of_reachable hr) hL hs

end Reachable

end Comyno
