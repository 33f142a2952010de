import Comyno.Qpid.Redelivery
import Comyno.Qpid.RoundTrip

/-!
# No message is lost

A message that a broker has taken is in a queue, held by a session or acknowledged.  A receiver can
lose its connection at any moment, and its worker can leave the loop with a message it has fetched;
then the message is back in the queue.  It leaves the broker for good only when it is acknowledged,
and `sessionAcknowledge` acknowledges everything that was fetched on the session, so what counts is
that a receiver never holds more than the one message it works on (`Step.fetched_le`).

All of this is about queues: a topic keeps no message, and copies it to each of its subscribers.

## Main result

* `message_conserved` : a message is held by at most one session, which works on it and on no other,
  and is acknowledged only after its callback has returned.
-/

namespace Comyno

open Conc

/-! ### One message at a time -/

/-- A receiver fetches only when everything it has fetched is acknowledged. -/
theorem Step.fetched_le {s s' : State} {l : Label} (h : Step s l s') {r : RecvId}
    {L : Ledger Message} (hr : Records (s.recv r) L)
    (hle : (s.recv r).fetched.length ≤ (s.recv r).acked.length + 1) :
    (s'.recv r).fetched.length ≤ (s'.recv r).acked.length + 1 := by
  have hm := h.recv_move r
  generalize s'.recv r = R at hm ⊢
  cases hm with
  | work hw =>
    cases hw with
    | fetch hpc =>
      have hk := hr.pc
      rw [hpc] at hk
      have hall : L.acked = L.fetched.length := hk
      simp [hr.fetched, hr.acked, hall]
    | acknowledge | acknowledgeApplied => exact Nat.le_succ _
    | _ => exact hle
  | _ => exact hle

theorem fetched_le_of_reachable {C : State → Label → Prop} {s : State}
    (h : qpid.ReachableWhere C State.init s) (r : RecvId) :
    (s.recv r).fetched.length ≤ (s.recv r).acked.length + 1 :=
  h.invariant_of (I := fun s => ∃ L, Records (s.recv r) L)
    (J := fun s => (s.recv r).fetched.length ≤ (s.recv r).acked.length + 1)
    (fun _ hs => records_of_reachable hs r) (Nat.zero_le _) fun s l s' hs hle _ hst => by
      obtain ⟨L, hL⟩ := hs
      exact (step_cases hst).2.fetched_le hL hle

/-! ### Where a message is -/

/-- The message `d` has not been lost. -/
structure Conserved (b : Brokered) (d : ℕ) (a : Delivery) : Prop where
  published : b.broker.published[d]? = some a
  /-- A session that holds it is open and works on it: everything else that it has fetched is
  acknowledged. -/
  held : ∀ r, b.broker.place d = .held r → (b.recv r).isOpen = true ∧
    (b.recv r).mExchange = a.exchange ∧
    ∃ ds, b.fetched r = ds ++ [d] ∧ ∀ x ∈ ds, b.broker.place x = .acked r
  /-- It was acknowledged by a receiver of its exchange, whose callback was called for it and
  returned. -/
  acked : ∀ r, b.broker.place d = .acked r → (b.recv r).mExchange = a.exchange ∧
    b.Processed r d ∧ Receiver.callbackArgs a.exchange a.message ∈ (b.recv r).invoked

section Books

variable {b : Brokered} {r : RecvId} {d : ℕ} {a : Delivery}

/-- What a receiver has fetched is a message of its exchange. -/
theorem Books.exchange_of_mem (h : Books b r) (hd : d ∈ b.fetched r)
    (ha : b.broker.published[d]? = some a) : (b.recv r).mExchange = a.exchange := by
  obtain ⟨k, hk⟩ := List.mem_iff_getElem?.1 hd
  obtain ⟨m, -, hm⟩ := h.exists_message hk
  rw [ha] at hm
  cases hm
  rfl

/-- A session holds the last message that it has fetched, and no other. -/
theorem Books.fetched_of_held (h : Books b r)
    (hle : (b.recv r).fetched.length ≤ (b.recv r).acked.length + 1)
    (hd : b.broker.place d = .held r) :
    ∃ ds, b.fetched r = ds ++ [d] ∧ ∀ x ∈ ds, b.broker.place x = .acked r := by
  have hmem := ((h.held d).1 hd).2
  have hdrop : (b.fetched r).drop (b.recv r).acked.length = [d] := by
    have hlen : ((b.fetched r).drop (b.recv r).acked.length).length ≤ 1 := by
      rw [List.length_drop, h.length_fetched]
      omega
    obtain ⟨x, hx⟩ := List.length_eq_one_iff.1
      (le_antisymm hlen (List.length_pos_of_mem hmem))
    rw [hx] at hmem ⊢
    rw [List.mem_singleton.1 hmem]
  refine ⟨(b.fetched r).take (b.recv r).acked.length, ?_, fun x hx => (h.acked x).2 hx⟩
  rw [← hdrop, List.take_append_drop]

/-- The callback was called for every message that is acknowledged, and returned. -/
theorem Books.processed_of_acked (h : Books b r) {L : Ledger Message} (hr : Records (b.recv r) L)
    (ha : b.broker.published[d]? = some a) (hd : b.broker.place d = .acked r) :
    b.Processed r d ∧ Receiver.callbackArgs a.exchange a.message ∈ (b.recv r).invoked := by
  obtain ⟨k, hk, hkd⟩ := List.mem_take_iff_getElem.1 ((h.acked d).1 hd)
  have hlt : k < L.acked := by
    have hacked : (b.recv r).acked.length = L.acked := by rw [hr.acked, L.length_ackedList]
    omega
  obtain ⟨m, hm, hpub⟩ := h.exists_message
    (List.getElem?_eq_some_iff.2 ⟨lt_of_lt_of_le hk (Nat.min_le_right _ _), hkd⟩)
  rw [ha] at hpub
  cases hpub
  have hhandled := L.acked_le
  have hstarted := L.handled_le
  constructor
  · refine List.mem_take_iff_getElem.2 ⟨k, ?_, hkd⟩
    rw [hr.processed, L.length_handledList]
    omega
  · rw [hr.invoked]
    refine List.mem_map_of_mem (List.mem_iff_getElem?.2 ⟨k, ?_⟩)
    obtain ⟨rest, hrest⟩ := L.started_prefix
    rw [hr.fetched, ← hrest, List.getElem?_append_left
      (by rw [L.length_startedList]; omega)] at hm
    exact hm

end Books

section Runs

variable {parse : AddressParser} {b b' : Brokered} {d : ℕ} {a : Delivery}

theorem conserved_of_reachable (h : (brokered parse).Reachable {} b)
    (ha : b.broker.published[d]? = some a) : Conserved b d a where
  published := ha
  held r hd := by
    have hbooks := books_of_reachable h r
    obtain ⟨hopen, hmem⟩ := (hbooks.held d).1 hd
    exact ⟨hopen, hbooks.exchange_of_mem (List.mem_of_mem_drop hmem) ha,
      hbooks.fetched_of_held (fetched_le_of_reachable (qpid_reachable_of_brokered h) r) hd⟩
  acked r hd := by
    have hbooks := books_of_reachable h r
    obtain ⟨L, hL⟩ := records_of_reachable (qpid_reachable_of_brokered h) r
    have hmem := List.mem_of_mem_take ((hbooks.acked d).1 hd)
    exact ⟨hbooks.exchange_of_mem hmem ha, hbooks.processed_of_acked hL ha hd⟩

end Runs

/-- **No message is lost.**  In every run of the library with its broker, whose exchanges are
queues, with any number of objects, receivers and threads, any pattern of exceptions and lost
connections and every interleaving: a message that was published is in the queue of its exchange; or
exactly one session holds it, that of an open receiver of the exchange, which has nothing else to
acknowledge; or it is acknowledged, and then the callback of a receiver of the exchange was called
for it and returned.  And so it stays, with what is acknowledged acknowledged for good. -/
theorem message_conserved {parse : AddressParser} {b : Brokered}
    (h : (brokered parse).Reachable {} b) {d : ℕ} {a : Delivery}
    (ha : b.broker.published[d]? = some a) : Conserved b d a ∧
      ∀ b', (brokered parse).Reachable b b' → Conserved b' d a ∧
        ∀ r, b.broker.place d = .acked r → b'.broker.place d = .acked r := by
  refine ⟨conserved_of_reachable h ha, fun b' h' => ⟨?_, fun r hd => ?_⟩⟩
  · exact conserved_of_reachable (h.trans h') (published_of_reachable h' ha)
  · exact h'.invariant (I := fun b => b.broker.place d = .acked r) hd
      fun _ _ _ hs _ hst => ((brokered_step_cases hst).acked (q := r) hs).1

/-- A message that was processed and not acknowledged is back in the queue, and is then held by the
receiver that is started next. -/
def redeliveredLabels : List BrokeredLabel :=
  processedTwice ++ messagingSteps (startLabels 0 "exchange" ++ [.work 1 .test]) ++ [.fetch 1 0]

theorem message_conserved_redelivered :
    ∃ b, (brokered plainName).run {} redeliveredLabels = some b ∧
      b.Processed 0 0 ∧ b.broker.place 0 = .held 1 ∧
      Conserved b 0 ⟨"exchange", ⟨"message", ⟨"reply"⟩⟩⟩ := by
  have hrun : ∃ b, (brokered plainName).run {} redeliveredLabels = some b ∧
      b.Processed 0 0 ∧ b.broker.place 0 = .held 1 ∧
      b.broker.published[0]? = some ⟨"exchange", ⟨"message", ⟨"reply"⟩⟩⟩ :=
    ⟨_, rfl, by decide, rfl, rfl⟩
  obtain ⟨b, hb, hprocessed, hplace, ha⟩ := hrun
  exact ⟨b, hb, hprocessed, hplace, (message_conserved (Machine.reachable_of_run hb) ha).1⟩

end Comyno
