import Comyno.Test.Callback
import Mathlib.Data.List.Perm.Subperm

/-!
# The messages of the callbacks

`receiveAndReplyCallback` sends a message for a message with a reply address, and the exchange to
which it sends may have a receiver that answers, too.  What keeps two of them from answering each
other forever is that a callback sends without a reply address.

`Traffic` is a record of a run: the deliveries, the deliveries whose callbacks have called
`qpidSendMessage`, and the messages that these calls have published.  Every other message is an
initial one; it comes from another client or from the menu.

## Main results

* `auto_reply_bounded` : an answer has no reply address, every call of `qpidSendMessage` by a
  callback has its own delivery of an initial message with a reply address, and if no message is
  delivered twice, `n` initial messages lead to at most `2 * n` messages.
-/

namespace Comyno

open Conc

/-! ### The record -/

/-- A message published by a callback. -/
structure SentAnswer where
  message : ℕ
  /-- The delivery for which the callback was called. -/
  delivery : ℕ
  deriving DecidableEq, Repr

/-- What has happened in a run. -/
structure Traffic where
  /-- The messages delivered, oldest first. -/
  deliveries : List ℕ := []
  /-- The last delivery to a receiver, as a position in `deliveries`. -/
  last : RecvId → ℕ := fun _ => 0
  /-- The deliveries whose callbacks have called `qpidSendMessage`. -/
  sends : List ℕ := []
  answers : List SentAnswer := []

namespace Traffic

variable (t : Traffic)

/-- The deliveries whose callbacks have called `qpidSendMessage`, after the step `l`. -/
def recordSend (p : Program) : ProgramLabel → List ℕ
  | .callback r => match p.act r with
    | some (.qpidSendMessage _ _) => t.sends ++ [t.last r]
    | _ => t.sends
  | _ => t.sends

/-- The messages published by callbacks, after the step `l`. -/
def recordAnswer (p : Program) : ProgramLabel → List SentAnswer
  | .library (.step (.exec (.worker r) .ok)) => match p.brokered.sends (.worker r) with
    | some _ => t.answers ++ [⟨p.published.length, t.last r⟩]
    | none => t.answers
  | _ => t.answers

/-- The record after the step `l`. -/
def record (p : Program) (l : ProgramLabel) (_ : Program) : Traffic where
  deliveries := match l with
    | .library (.fetch _ d) => t.deliveries ++ [d]
    | _ => t.deliveries
  last := match l with
    | .library (.fetch r _) => Function.update t.last r t.deliveries.length
    | _ => t.last
  sends := t.recordSend p l
  answers := t.recordAnswer p l

/-- The messages that callbacks have not published. -/
def initial (p : Program) : List ℕ :=
  (List.range p.published.length).filter (· ∉ t.answers.map SentAnswer.message)

/-- The message has a reply address. -/
def asks (p : Program) (d : ℕ) : Bool :=
  match p.published[d]? with
  | some a => a.message.replyTo.name ≠ ""
  | none => false

/-- The deliveries of initial messages with a reply address. -/
def requests (p : Program) : List ℕ :=
  t.deliveries.filter fun d => d ∈ t.initial p ∧ asks p d = true

end Traffic

/-- The program with its record. -/
def observed (parse : AddressParser) : Machine (Program × Traffic) ProgramLabel :=
  (program parse).observe Traffic.record

namespace Traffic

variable {t : Traffic} {p p' : Program} {l : ProgramLabel} {r : RecvId}

theorem deliveries_prefix (t : Traffic) (p : Program) (l : ProgramLabel) (p' : Program) :
    t.deliveries <+: (t.record p l p').deliveries := by
  simp only [record]
  split
  · exact List.prefix_append _ _
  · exact List.prefix_rfl

theorem last_of_about (h : l.about r = false ∨ l = .callback r) :
    (t.record p l p').last r = t.last r := by
  simp only [record]
  split
  · rename_i q d
    have hne : r ≠ q := by
      rcases h with h | h
      · simpa [ProgramLabel.about, eq_comm] using h
      · cases h
    exact Function.update_of_ne hne ..
  · rfl

theorem sends_cases (t : Traffic) (p : Program) (l : ProgramLabel) (p' : Program) :
    (t.record p l p').sends = t.sends ∨
    ∃ q text exchange, l = .callback q ∧ p.act q = some (.qpidSendMessage text exchange) ∧
      (t.record p l p').sends = t.sends ++ [t.last q] := by
  simp only [record, recordSend]
  split
  · split
    · exact Or.inr ⟨_, _, _, rfl, ‹_›, rfl⟩
    · exact Or.inl rfl
  · exact Or.inl rfl

theorem answers_cases (t : Traffic) (p : Program) (l : ProgramLabel) (p' : Program) :
    (t.record p l p').answers = t.answers ∨
    ∃ q payload args, l = .library (.step (.exec (.worker q) .ok)) ∧
      p.sender q = .sending (.senderSend payload) args ∧
      (t.record p l p').answers = t.answers ++ [⟨p.published.length, t.last q⟩] := by
  simp only [record, recordAnswer]
  split
  · rename_i q
    split
    · rename_i a ha
      unfold Brokered.sends at ha
      split at ha
      · exact Or.inr ⟨q, _, _, rfl, ‹_›, rfl⟩
      · cases ha
    · exact Or.inl rfl
  · exact Or.inl rfl

end Traffic

/-! ### Deliveries and sends -/

/-- The callback answers a message, and has not called `qpidSendMessage` yet. -/
def CallbackPc.answering : CallbackPc → Bool
  | .print | .argument | .send _ => true
  | .start | .sending | .persist | .persisting | .done | .unwinding => false

/-- The callback takes no step before a call of `qpidSendMessage` anymore. -/
def CallbackPc.past : CallbackPc → Bool
  | .sending | .done | .unwinding => true
  | .start | .print | .argument | .send _ | .persist | .persisting => false

/-- A callback that has called `qpidSendMessage` waits for it, or has ended. -/
theorem Program.act_eq_await {p : Program} {r : RecvId} {a : CallbackAct}
    (hpast : (p.callback r).past = true) (h : p.act r = some a) : a = .await := by
  obtain ⟨m, c, -, -, hstep⟩ := Program.act_cases h
  generalize p.callback r = place at hpast hstep
  cases hstep with
  | sending => rfl
  | _ => cases hpast

/-- The delivery `i` is one of the message `m`. -/
def Traffic.Of (t : Traffic) (p : Program) (i : ℕ) (m : Message) : Prop :=
  ∃ d a, t.deliveries[i]? = some d ∧ p.published[d]? = some a ∧ a.message = m

/-- The published messages and the deliveries are never removed. -/
theorem Traffic.Of.step {parse : AddressParser} {p p' : Program} {t : Traffic} {l : ProgramLabel}
    {i : ℕ} {m : Message} (hi : t.Of p i m) (hst : (program parse).step p l = some p') :
    (t.record p l p').Of p' i m := by
  obtain ⟨d, a, hd, ha, hm⟩ := hi
  refine ⟨d, a, ?_, published_of_step hst ha, hm⟩
  obtain ⟨rest, hrest⟩ := Traffic.deliveries_prefix t p l p'
  rw [← hrest, List.getElem?_append_left (List.getElem?_eq_some_iff.1 hd).1, hd]

theorem Traffic.Of.lt {p : Program} {t : Traffic} {i : ℕ} {m : Message} (hi : t.Of p i m) :
    i < t.deliveries.length := by
  obtain ⟨d, a, hd, -⟩ := hi
  exact (List.getElem?_eq_some_iff.1 hd).1

/-- The messages in hand, and the sends that they have led to. -/
structure Handed (p : Program) (t : Traffic) : Prop where
  hand : ∀ r m, (p.recv r).pc.inHand = some m → t.Of p (t.last r) m
  /-- No two workers have got their messages by the same delivery. -/
  distinct : ∀ r q m n, (p.recv r).pc.inHand = some m → (p.recv q).pc.inHand = some n →
    t.last r = t.last q → r = q
  asked : ∀ r m, (p.recv r).pc = .callback m → (p.callback r).answering = true →
    m.replyTo.name ≠ ""
  fresh : ∀ r m, (p.recv r).pc.inHand = some m → t.last r ∈ t.sends →
    (p.recv r).pc = .callback m ∧ (p.callback r).past = true
  nodup : t.sends.Nodup
  triggered : ∀ i ∈ t.sends, ∃ m, t.Of p i m ∧ m.replyTo.name ≠ ""

namespace Handed

variable {parse : AddressParser} {p p' : Program} {t : Traffic} {l : ProgramLabel} {r : RecvId}

theorem init : Handed {} {} where
  hand _ _ h := by cases h
  distinct _ _ _ _ h := by cases h
  asked _ _ h := by cases h
  fresh _ _ h := by cases h
  nodup := List.nodup_nil
  triggered _ h := by cases h

theorem hand_step (hh : Handed p t) (hborn : Born p.messaging)
    (hst : (program parse).step p l = some p') :
    ∀ r m, (p'.recv r).pc.inHand = some m →
      (t.record p l p').Of p' ((t.record p l p').last r) m := by
  intro r m hm
  have hmove := (program_step_cases hst).2.worker_move hborn r
  rcases hmove.inHand_cases hm with ⟨hold, hl⟩ | ⟨d, a, rfl, hd, ha, -⟩
  · rw [Traffic.last_of_about hl]
    exact (hh.hand r m hold).step hst
  · exact ⟨d, a, by simp [Traffic.record], published_of_step hst hd, ha⟩

theorem distinct_step (hh : Handed p t) (hborn : Born p.messaging)
    (hst : (program parse).step p l = some p') :
    ∀ r q m n, (p'.recv r).pc.inHand = some m → (p'.recv q).pc.inHand = some n →
      (t.record p l p').last r = (t.record p l p').last q → r = q := by
  intro r q m n hm hn hlast
  have h := (program_step_cases hst).2
  have hnew : ∀ {r d}, l = .library (.fetch r d) →
      (t.record p l p').last r = t.deliveries.length := by
    rintro r d rfl
    exact Function.update_self ..
  rcases (h.worker_move hborn r).inHand_cases hm with ⟨hold, hl⟩ | ⟨d, -, hl, -⟩
  · have hlt := (hh.hand r m hold).lt
    rcases (h.worker_move hborn q).inHand_cases hn with ⟨hold', hl'⟩ | ⟨d', -, hl', -⟩
    · rw [Traffic.last_of_about hl, Traffic.last_of_about hl'] at hlast
      exact hh.distinct r q m n hold hold' hlast
    · rw [Traffic.last_of_about hl, hnew hl'] at hlast
      omega
  · rcases (h.worker_move hborn q).inHand_cases hn with ⟨hold', hl'⟩ | ⟨d', -, hl', -⟩
    · have hlt := (hh.hand q n hold').lt
      rw [hnew hl, Traffic.last_of_about hl'] at hlast
      omega
    · cases hl.symm.trans hl'
      rfl

/-- Where a callback that has sent is after one of its steps. -/
theorem past_of_acted (h : ProgramStep parse p (.callback r) p')
    (hpast : (p.callback r).past = true) : (p'.callback r).past = true := by
  cases h with
  | goto ha | index ha | qpidSendMessage ha | pgMessagePersist ha =>
    cases Program.act_eq_await hpast ha
  | await =>
    simp only [Program.goto_callback, if_true]
    split <;> rfl
  | indexFault | pgMessagePersistFault => exact hpast

/-- The delivery of a message in hand leads to a send now, or has done so before. -/
theorem mem_sends_cases (hh : Handed p t) {m : Message} (hm : (p.recv r).pc.inHand = some m)
    (hmem : t.last r ∈ (t.record p l p').sends) : t.last r ∈ t.sends ∨
      l = .callback r ∧ ∃ text exchange, p.act r = some (.qpidSendMessage text exchange) := by
  rcases t.sends_cases p l p' with
    heq | ⟨q, text, exchange, hl, ha, heq⟩
  · rw [heq] at hmem
    exact Or.inl hmem
  · rw [heq, List.mem_append, List.mem_singleton] at hmem
    refine hmem.imp_right fun hlast => ?_
    obtain ⟨n, hn, -⟩ := Program.place_of_send ha
    obtain rfl := hh.distinct r q m n hm (by rw [hn]; rfl) hlast
    exact ⟨hl, text, exchange, ha⟩

theorem fresh_step (hh : Handed p t) (hborn : Born p.messaging)
    (hst : (program parse).step p l = some p') :
    ∀ r m, (p'.recv r).pc.inHand = some m →
      (t.record p l p').last r ∈ (t.record p l p').sends →
      (p'.recv r).pc = .callback m ∧ (p'.callback r).past = true := by
  intro r m hm hmem
  have h := (program_step_cases hst).2
  have hmove := h.worker_move hborn r
  -- a message that is not in the callback yet has led to no send
  have hearly : ∀ {n}, (p.recv r).pc.inHand = some n → l.about r = false →
      (p.recv r).pc.inCallback = false → False := by
    intro n hn hl hpc
    rw [Traffic.last_of_about (Or.inl hl)] at hmem
    rcases hh.mem_sends_cases hn hmem with hold | ⟨rfl, -⟩
    · rw [(hh.fresh r n hn hold).1] at hpc
      cases hpc
    · simp [ProgramLabel.about] at hl
  cases hmove with
  | same hl hpc hcallback =>
    rw [hpc] at hm ⊢
    rw [Traffic.last_of_about (Or.inl hl)] at hmem
    rw [hcallback]
    rcases hh.mem_sends_cases hm hmem with hold | ⟨rfl, -⟩
    · exact hh.fresh r m hm hold
    · simp [ProgramLabel.about] at hl
  | acted hpc =>
    rw [hpc] at hm ⊢
    rw [Traffic.last_of_about (Or.inr rfl)] at hmem
    rcases hh.mem_sends_cases hm hmem with hold | ⟨-, text, exchange, ha⟩
    · obtain ⟨hold, hpast⟩ := hh.fresh r m hm hold
      exact ⟨hold, past_of_acted h hpast⟩
    · obtain ⟨n, hn, -⟩ := Program.place_of_send ha
      rw [hn] at hm ⊢
      cases hm
      exact ⟨rfl, by rw [h.callback_of_send ha]; rfl⟩
  | fetched =>
    obtain ⟨n, hn, -⟩ := hh.triggered _ hmem
    have hlt := hn.lt
    simp [Traffic.record] at hlt
  | locked hl hold | invoked hl hold =>
    exact (hearly (by rw [hold]; rfl) hl (by rw [hold]; rfl)).elim
  | free _ hfree =>
    rw [hfree] at hm
    cases hm

theorem nodup_step (hh : Handed p t) : (t.record p l p').sends.Nodup := by
  rcases t.sends_cases p l p' with
    heq | ⟨q, text, exchange, -, ha, heq⟩
  · rw [heq]
    exact hh.nodup
  · obtain ⟨m, hm, hplace⟩ := Program.place_of_send ha
    rw [heq, ← List.concat_eq_append]
    refine hh.nodup.concat fun hmem => ?_
    have hpast := (hh.fresh q m (by rw [hm]; rfl) hmem).2
    rw [hplace] at hpast
    cases hpast

theorem triggered_step (hh : Handed p t) (hst : (program parse).step p l = some p') :
    ∀ i ∈ (t.record p l p').sends, ∃ m, (t.record p l p').Of p' i m ∧ m.replyTo.name ≠ "" := by
  intro i hi
  have hold : ∀ i ∈ t.sends, ∃ m, (t.record p l p').Of p' i m ∧ m.replyTo.name ≠ "" := by
    intro i hi
    obtain ⟨m, hm, hname⟩ := hh.triggered i hi
    exact ⟨m, hm.step hst, hname⟩
  rcases t.sends_cases p l p' with
    heq | ⟨q, text, exchange, -, ha, heq⟩
  · rw [heq] at hi
    exact hold i hi
  · rw [heq, List.mem_append, List.mem_singleton] at hi
    rcases hi with hi | rfl
    · exact hold i hi
    · obtain ⟨m, hm, hplace⟩ := Program.place_of_send ha
      exact ⟨m, (hh.hand q m (by rw [hm]; rfl)).step hst, hh.asked q m hm (by rw [hplace]; rfl)⟩

/-- A callback answers only a message with a reply address. -/
theorem asked_of_acted (hh : Handed p t) (h : ProgramStep parse p (.callback r) p') {m : Message}
    (hm : (p.recv r).pc = .callback m) (hplace : (p'.callback r).answering = true) :
    m.replyTo.name ≠ "" := by
  have hold := hh.asked r m hm
  cases h with
  | goto ha =>
    obtain ⟨c, -, hstep⟩ := Program.act_cases_of_callback hm ha
    simp only [Program.goto_callback, if_true] at hplace
    generalize p.callback r = place at hstep
    cases hstep with
    | invalid hname | reply hname => exact hname
    | plain | unanswered | toPersist => cases hplace
  | index ha =>
    obtain ⟨c, -, hstep⟩ := Program.act_cases_of_callback hm ha
    generalize p.callback r = place at hold hstep
    cases hstep with
    | print | argument => exact hold rfl
  | qpidSendMessage => simp [CallbackPc.answering] at hplace
  | await =>
    simp only [Program.goto_callback, if_true] at hplace
    split at hplace <;> cases hplace
  | pgMessagePersist ha =>
    obtain ⟨c, -, hstep⟩ := Program.act_cases_of_callback hm ha
    simp only [Program.goto_callback, if_true] at hplace
    generalize p.callback r = place at hstep
    cases hstep <;> cases hplace
  | indexFault | pgMessagePersistFault => exact hold hplace

theorem asked_step (hh : Handed p t) (hborn : Born p.messaging) (h : ProgramStep parse p l p') :
    ∀ r m, (p'.recv r).pc = .callback m → (p'.callback r).answering = true →
      m.replyTo.name ≠ "" := by
  intro r m hm hplace
  have hmove := h.worker_move hborn r
  cases hmove with
  | same _ hpc hcallback =>
    rw [hpc] at hm
    rw [hcallback] at hplace
    exact hh.asked r m hm hplace
  | acted hpc =>
    rw [hpc] at hm
    exact hh.asked_of_acted h hm hplace
  | fetched _ _ _ hpc | locked _ _ hpc =>
    rw [hpc] at hm
    cases hm
  | invoked _ _ _ hstart =>
    rw [hstart] at hplace
    cases hplace
  | free _ hfree =>
    rw [hm] at hfree
    cases hfree

theorem step (hh : Handed p t) (hborn : Born p.messaging)
    (hst : (program parse).step p l = some p') : Handed p' (t.record p l p') where
  hand := hh.hand_step hborn hst
  distinct := hh.distinct_step hborn hst
  asked := hh.asked_step hborn (program_step_cases hst).2
  fresh := hh.fresh_step hborn hst
  nodup := hh.nodup_step
  triggered := hh.triggered_step hst

end Handed

/-! ### Answers -/

/-- `senderSend` has been called. -/
def SendPc.published : SendPc → Bool
  | .closeConnection | .handler => true
  | .construct | .openConnection | .createSession | .createSender | .address
  | .senderSend _ => false

/-- What is known of the send of a callback. -/
structure Sending (p : Program) (t : Traffic) (r : RecvId) (pc : SendPc) (args : SendArgs) :
    Prop where
  address : args.replyAddress = ""
  payload : ∀ m, pc = .senderSend m → m.replyTo.name = ""
  callback : ∃ m, (p.recv r).pc = .callback m
  place : p.callback r = .sending
  sent : t.last r ∈ t.sends
  unpublished : pc.published = false → t.last r ∉ t.answers.map SentAnswer.delivery

/-- The sends of the callbacks and what they have published. -/
structure Answered (p : Program) (t : Traffic) : Prop where
  sending : ∀ r pc args, p.sender r = .sending pc args → Sending p t r pc args
  calls : ∀ r, ∀ c ∈ p.sent r, c.payload.replyTo.name = ""
  nodup : (t.answers.map SentAnswer.delivery).Nodup
  sends : ∀ a ∈ t.answers, a.delivery ∈ t.sends
  empty : ∀ a ∈ t.answers, ∃ x, p.published[a.message]? = some x ∧ x.message.replyTo.name = ""

/-- While its send is in progress the callback stays where it is. -/
theorem callback_of_sending {parse : AddressParser} {p p' : Program} {l : ProgramLabel} {r : RecvId}
    {pc : SendPc} {args : SendArgs} {m : Message} (h : ProgramStep parse p l p')
    (hborn : Born p.messaging) (hs : p.sender r = .sending pc args)
    (hm : (p.recv r).pc = .callback m) (hplace : p.callback r = .sending) :
    (p'.recv r).pc = .callback m ∧ p'.callback r = .sending ∧ l.about r = false := by
  have hmove := h.worker_move hborn r
  cases hmove with
  | same hl hpc hcallback => exact ⟨hpc.trans hm, hcallback.trans hplace, hl⟩
  | acted =>
    have hpast : (p.callback r).past = true := by
      rw [hplace]
      rfl
    cases h with
    | await ha hres =>
      rw [show p.brokered.process.sender (.worker r) = .sending pc args from hs] at hres
      cases hres
    | goto ha | index ha | qpidSendMessage ha | pgMessagePersist ha | indexFault ha
    | pgMessagePersistFault ha => cases Program.act_eq_await hpast ha
  | fetched _ _ hpc | locked _ hpc | invoked _ hpc =>
    rw [hm] at hpc
    cases hpc
  | free _ _ hidle =>
    have := hidle (by rw [hm]; rfl)
    rw [Process.idle, show p.brokered.process.sender (.worker r) = .sending pc args from hs] at this
    cases this

namespace Answered

variable {parse : AddressParser} {p p' : Program} {t : Traffic} {l : ProgramLabel} {r : RecvId}

theorem init : Answered {} {} where
  sending _ _ _ h := by cases h
  calls _ _ h := by cases h
  nodup := List.nodup_nil
  sends _ h := by cases h
  empty _ h := by cases h

theorem mem_sends {i : ℕ} (hi : i ∈ t.sends) : i ∈ (t.record p l p').sends := by
  rcases t.sends_cases p l p' with heq | ⟨_, _, _, _, _, heq⟩
  · rwa [heq]
  · rw [heq]
    exact List.mem_append_left _ hi

/-- The send of a callback goes on, or another thread takes a step. -/
theorem sending_of_step (ha : Answered p t) (hh : Handed p t) (hborn : Born p.messaging)
    (h : ProgramStep parse p l p') {pc pc' : SendPc} {args : SendArgs}
    (hs : p.sender r = .sending pc args)
    (hpayload : ∀ m, pc' = .senderSend m → m.replyTo.name = "")
    (hpub : pc'.published = false → pc.published = false ∧
      ∀ payload, l = .library (.step (.exec (.worker r) .ok)) → pc ≠ .senderSend payload) :
    Sending p' (t.record p l p') r pc' args := by
  have hold := ha.sending r pc args hs
  obtain ⟨m, hm⟩ := hold.callback
  obtain ⟨hpc, hplace, hl⟩ := callback_of_sending h hborn hs hm hold.place
  have hlast : (t.record p l p').last r = t.last r := Traffic.last_of_about (Or.inl hl)
  refine ⟨hold.address, hpayload, ⟨m, hpc⟩, hplace, hlast ▸ mem_sends hold.sent, fun hnot => ?_⟩
  rw [hlast]
  obtain ⟨hnot, hlabel⟩ := hpub hnot
  rcases t.answers_cases p l p' with
    heq | ⟨q, payload, args', hq, hsq, heq⟩
  · rw [heq]
    exact hold.unpublished hnot
  · rw [heq, List.map_append, List.mem_append, not_or]
    refine ⟨hold.unpublished hnot, ?_⟩
    simp only [List.map_cons, List.map_nil, List.mem_singleton]
    intro hrq
    obtain ⟨n, hn⟩ := (ha.sending q _ _ hsq).callback
    obtain rfl := hh.distinct r q m n (by rw [hm]; rfl) (by rw [hn]; rfl) hrq
    cases hs.symm.trans hsq
    exact hlabel payload hq rfl

/-- The send of a callback begins. -/
theorem sending_of_send (ha : Answered p t) (hh : Handed p t)
    (h : ProgramStep parse p (.callback r) p') {text exchange : String}
    (hact : p.act r = some (.qpidSendMessage text exchange)) :
    Sending p' (t.record p (.callback r) p') r .construct ⟨exchange, text, ""⟩ := by
  obtain ⟨m, hm, hplace⟩ := Program.place_of_send hact
  refine ⟨rfl, by simp, ⟨m, ?_⟩, h.callback_of_send hact, ?_, fun _ hmem => ?_⟩
  · rw [h.recv_eq (by simp), hm]
  · simp [Traffic.record, Traffic.recordSend, hact]
  · -- the message in hand has led to no send, so to no answer
    obtain ⟨a, hmem, hdelivery⟩ := List.mem_map.1 hmem
    have hpast := (hh.fresh r m (by rw [hm]; rfl) (hdelivery ▸ ha.sends a hmem)).2
    rw [hplace] at hpast
    cases hpast

theorem sending_step (ha : Answered p t) (hh : Handed p t) (hborn : Born p.messaging)
    (hparse : ∀ a, parse "" = some a → a.name = "") (h : ProgramStep parse p l p') :
    ∀ r pc args, p'.sender r = .sending pc args → Sending p' (t.record p l p') r pc args := by
  intro r pc args hs'
  have hmove := h.sender_move r
  cases hmove with
  | same hl hsender =>
    rw [hsender] at hs'
    refine ha.sending_of_step hh hborn h hs' (ha.sending r pc args hs').payload fun hpc => ⟨hpc, ?_⟩
    rintro payload rfl
    simp [ProgramLabel.sends] at hl
  | send hact hsender =>
    cases hsender.symm.trans hs'
    exact ha.sending_of_send hh h hact
  | @exec x old args' f hs hstep hf =>
    rw [hf] at hs'
    subst hs'
    have hold := ha.sending r old args' hs
    cases hstep with
    | construct | openConnection | createSession | createSender =>
      exact ha.sending_of_step hh hborn h hs (by simp) fun _ => ⟨rfl, by simp⟩
    | address hreply =>
      rw [hold.address] at hreply
      refine ha.sending_of_step hh hborn h hs ?_ fun _ => ⟨rfl, by simp⟩
      rintro m ⟨⟩
      exact hparse _ hreply
    | senderSend | throw =>
      refine ha.sending_of_step hh hborn h hs (by simp) fun hpc => ?_
      cases hpc

theorem calls_step (ha : Answered p t) (h : ProgramStep parse p l p') :
    ∀ r, ∀ c ∈ p'.sent r, c.payload.replyTo.name = "" := by
  intro r c hc
  have hmove := h.sender_move r
  cases hmove with
  | same _ _ hsent | send _ _ hsent =>
    rw [hsent] at hc
    exact ha.calls r c hc
  | @exec x pc args f hs _ _ hsent =>
    rw [hsent, List.mem_append] at hc
    rcases hc with hc | hc
    · exact ha.calls r c hc
    · have hold := ha.sending r pc args hs
      cases pc with
      | senderSend payload =>
        obtain rfl := List.mem_singleton.1 hc
        exact hold.payload payload rfl
      | _ => cases hc

theorem nodup_step (ha : Answered p t) :
    ((t.record p l p').answers.map SentAnswer.delivery).Nodup := by
  rcases t.answers_cases p l p' with
    heq | ⟨q, payload, args, -, hs, heq⟩
  · rw [heq]
    exact ha.nodup
  · rw [heq, List.map_append, List.map_singleton, ← List.concat_eq_append]
    exact ha.nodup.concat ((ha.sending q _ _ hs).unpublished rfl)

theorem sends_step (ha : Answered p t) :
    ∀ a ∈ (t.record p l p').answers, a.delivery ∈ (t.record p l p').sends := by
  intro a hmem
  rcases t.answers_cases p l p' with
    heq | ⟨q, payload, args, -, hs, heq⟩
  · rw [heq] at hmem
    exact mem_sends (ha.sends a hmem)
  · rw [heq, List.mem_append, List.mem_singleton] at hmem
    rcases hmem with hmem | rfl
    · exact mem_sends (ha.sends a hmem)
    · exact mem_sends (ha.sending q _ _ hs).sent

theorem empty_step (ha : Answered p t) (hst : (program parse).step p l = some p') :
    ∀ a ∈ (t.record p l p').answers,
      ∃ x, p'.published[a.message]? = some x ∧ x.message.replyTo.name = "" := by
  intro a hmem
  have hold : ∀ a ∈ t.answers, ∃ x, p'.published[a.message]? = some x ∧
      x.message.replyTo.name = "" := by
    intro a hmem
    obtain ⟨x, hx, hname⟩ := ha.empty a hmem
    exact ⟨x, published_of_step hst hx, hname⟩
  rcases t.answers_cases p l p' with
    heq | ⟨q, payload, args, rfl, hs, heq⟩
  · rw [heq] at hmem
    exact hold a hmem
  · rw [heq, List.mem_append, List.mem_singleton] at hmem
    rcases hmem with hmem | rfl
    · exact hold a hmem
    · have hmove := (program_step_cases hst).2.sender_move q
      cases hmove with
      | same hl => simp [ProgramLabel.sends] at hl
      | exec hs' _ _ _ hnew =>
        cases hs.symm.trans hs'
        exact ⟨_, hnew payload rfl rfl, (ha.sending q _ _ hs).payload payload rfl⟩

theorem step (ha : Answered p t) (hh : Handed p t) (hborn : Born p.messaging)
    (hparse : ∀ a, parse "" = some a → a.name = "")
    (hst : (program parse).step p l = some p') : Answered p' (t.record p l p') where
  sending := ha.sending_step hh hborn hparse (program_step_cases hst).2
  calls := ha.calls_step (program_step_cases hst).2
  nodup := ha.nodup_step
  sends := ha.sends_step
  empty := ha.empty_step hst

end Answered

/-! ### The bound -/

section Reachable

variable {parse : AddressParser} {p : Program} {t : Traffic}

theorem born_of_observed (h : (observed parse).Reachable ({}, {}) (p, t)) : Born p.messaging :=
  born_of_program (Machine.maps_observe.reachable h)

theorem handed_of_reachable (h : (observed parse).Reachable ({}, {}) (p, t)) : Handed p t :=
  h.invariant_of (I := fun s => Born s.1.messaging) (J := fun s => Handed s.1 s.2)
    (fun _ hr => born_of_observed hr) Handed.init fun s l s' hborn hh _ hst => by
      obtain ⟨hst, heq⟩ := Machine.observe_step_eq_some_iff.1 hst
      rw [heq]
      exact hh.step hborn hst

theorem answered_of_reachable (hparse : ∀ a, parse "" = some a → a.name = "")
    (h : (observed parse).Reachable ({}, {}) (p, t)) : Answered p t :=
  h.invariant_of (I := fun s => Born s.1.messaging ∧ Handed s.1 s.2)
    (J := fun s => Answered s.1 s.2)
    (fun _ hr => ⟨born_of_observed hr, handed_of_reachable hr⟩) Answered.init
    fun s l s' hi ha _ hst => by
      obtain ⟨hst, heq⟩ := Machine.observe_step_eq_some_iff.1 hst
      rw [heq]
      exact ha.step hi.2 hi.1 hparse hst

/-- A send is triggered by an initial message with a reply address. -/
theorem exists_request (hh : Handed p t) (ha : Answered p t) {i : ℕ} (hi : i ∈ t.sends) :
    ∃ d ∈ t.initial p, t.deliveries[i]? = some d ∧ Traffic.asks p d = true := by
  obtain ⟨m, ⟨d, a, hd, hpub, rfl⟩, hname⟩ := hh.triggered i hi
  refine ⟨d, ?_, hd, by simpa [Traffic.asks, hpub] using hname⟩
  have hlt := (List.getElem?_eq_some_iff.1 hpub).1
  have hnot : d ∉ t.answers.map SentAnswer.message := by
    intro hmem
    obtain ⟨b, hb, rfl⟩ := List.mem_map.1 hmem
    obtain ⟨x, hx, hempty⟩ := ha.empty b hb
    cases hpub.symm.trans hx
    exact hname hempty
  simpa [Traffic.initial, hlt] using hnot

theorem length_sends_le (hh : Handed p t) (ha : Answered p t) :
    t.sends.length ≤ (t.requests p).length := by
  rw [Traffic.requests, ← List.countP_eq_length_filter, ← List.length_findIdxs (s := 0)]
  refine (hh.nodup.subperm fun i hi => ?_).length_le
  obtain ⟨d, hd, hdel, hask⟩ := exists_request hh ha hi
  obtain ⟨hlt, rfl⟩ := List.getElem?_eq_some_iff.1 hdel
  exact List.mem_findIdxs_iff_exists_getElem_pos.2 ⟨hlt, by simp [hd, hask]⟩

/-- A message is initial or an answer. -/
theorem length_published_le : p.published.length ≤ (t.initial p).length + t.answers.length := by
  have hsplit := List.length_eq_length_filter_add (l := List.range p.published.length)
    fun d => decide (d ∉ t.answers.map SentAnswer.message)
  have hanswers : ((List.range p.published.length).filter
      fun d => !decide (d ∉ t.answers.map SentAnswer.message)).length ≤ t.answers.length := by
    rw [← List.length_map SentAnswer.message]
    refine ((List.nodup_range.filter _).subperm fun d hd => ?_).length_le
    simpa using (List.mem_filter.1 hd).2
  rw [List.length_range] at hsplit
  unfold Traffic.initial
  omega

/-- **Auto-reply cannot loop.**  In every run,

* what a callback hands to the broker has no reply address, and so have the messages published by
  callbacks;
* a callback calls `qpidSendMessage` only for the delivery of an initial message with a reply
  address, once for each delivery, so there are at most as many calls as such deliveries;
* if no message is delivered twice, there are at most twice as many messages as initial ones. -/
theorem auto_reply_bounded (hparse : ∀ a, parse "" = some a → a.name = "")
    (h : (observed parse).Reachable ({}, {}) (p, t)) :
    (∀ r, ∀ c ∈ p.sent r, c.payload.replyTo.name = "") ∧
    (∀ a ∈ t.answers, ∃ x, p.published[a.message]? = some x ∧ x.message.replyTo.name = "") ∧
    (t.sends.Nodup ∧ ∀ i ∈ t.sends,
      ∃ d ∈ t.initial p, t.deliveries[i]? = some d ∧ Traffic.asks p d = true) ∧
    t.sends.length ≤ (t.requests p).length ∧
    (t.deliveries.Nodup → p.published.length ≤ 2 * (t.initial p).length) := by
  have hh := handed_of_reachable h
  have ha := answered_of_reachable hparse h
  refine ⟨ha.calls, ha.empty, ⟨hh.nodup, fun i hi => exists_request hh ha hi⟩,
    length_sends_le hh ha, fun hnodup => ?_⟩
  have hanswers : t.answers.length ≤ t.sends.length := by
    rw [← List.length_map SentAnswer.delivery]
    refine (ha.nodup.subperm fun i hi => ?_).length_le
    obtain ⟨a, hmem, rfl⟩ := List.mem_map.1 hi
    exact ha.sends a hmem
  have hrequests : (t.requests p).length ≤ (t.initial p).length := by
    refine ((hnodup.filter _).subperm fun d hd => ?_).length_le
    exact (of_decide_eq_true (List.mem_filter.1 hd).2).1
  have hsends := length_sends_le hh ha
  have hpublished := length_published_le (p := p) (t := t)
  omega

end Reachable

/-- A request is answered. -/
def answeredLabels : List ProgramLabel :=
  configuredLabels ++ [.callback 0] ++
    List.replicate 7 (.library (.step (.exec (.worker 0) .ok))) ++ [.callback 0]

/-- One initial message, its answer, and no more. -/
theorem auto_reply_bounded_answered :
    ∃ s, (observed plainName).run ({}, {}) answeredLabels = some s ∧
      s.1.published.length = 2 ∧ s.2.sends.length = 1 ∧ s.2.answers = [⟨1, 0⟩] ∧
      s.2.sends.length ≤ (s.2.requests s.1).length ∧
      s.1.published.length ≤ 2 * (s.2.initial s.1).length := by
  have hrun : ∃ s, (observed plainName).run ({}, {}) answeredLabels = some s ∧
      s.1.published.length = 2 ∧ s.2.sends.length = 1 ∧ s.2.answers = [⟨1, 0⟩] ∧
      s.2.deliveries = [0] := ⟨_, rfl, rfl, rfl, rfl, rfl⟩
  obtain ⟨⟨p, t⟩, hs, hpublished, hsends, hanswers, hdeliveries⟩ := hrun
  have hparse : ∀ a, plainName "" = some a → a.name = "" := by
    rintro a ⟨⟩
    rfl
  obtain ⟨-, -, -, hle, htotal⟩ := auto_reply_bounded hparse (Machine.reachable_of_run hs)
  exact ⟨_, hs, hpublished, hsends, hanswers, hle, htotal (by rw [hdeliveries]; decide)⟩

end Comyno
