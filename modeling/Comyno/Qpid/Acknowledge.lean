import Comyno.Conc.Ledger
import Comyno.Qpid.Life

/-!
# A receiver acknowledges only what was processed

`sessionAcknowledge` acknowledges everything fetched on the session, so the loop of
`waitForMessages` must not fetch a second message before the callback of the first has returned.
It does not: each worker is a well-behaved consumer in the sense of `Conc.Ledger`.

## Main results

* `Records.step` : every step of a worker is a step of its ledger or leaves the ledger as it is.
* `records_of_reachable` : in every reachable state the lists of a receiver are those of a
  ledger.
* `acknowledge_only_processed` : callbacks run in fetch order, at most once for each message;
  when the worker acknowledges, everything fetched is processed; and the acknowledged messages
  are the processed ones, except perhaps the last.
-/

namespace Comyno

open Conc

/-- What a ledger says about the place its worker is at. -/
def WorkerPc.Agrees (L : Ledger Message) : WorkerPc → Prop
  | .unborn => L = Ledger.empty
  | .test | .fetch => L.acked = L.fetched.length
  | .lock m | .call m => ∃ l, L.fetched = l ++ [m] ∧ L.started = l.length ∧ L.acked = l.length
  | .callback m => ∃ l, L.fetched = l ++ [m] ∧ L.started = l.length + 1 ∧
      L.handled = l.length ∧ L.acked = l.length
  | .unlock | .acknowledge => L.handled = L.fetched.length
  | .handler | .handlerClose | .exited => True

/-- The lists of the receiver are those of the ledger. -/
structure Records (R : Receiver) (L : Ledger Message) : Prop where
  fetched : R.fetched = L.fetched
  invoked : R.invoked = L.startedList.map (Receiver.callbackArgs R.mExchange)
  processed : R.processed = L.handledList
  acked : R.acked = L.ackedList
  pc : R.pc.Agrees L

namespace Records

variable {R R' : Receiver} {L : Ledger Message} {a : WorkerAct}

/-- **A worker is a well-behaved consumer.** -/
theorem step (hr : Records R L) (h : WorkStep R a R') :
    ∃ L', Records R' L' ∧ (L' = L ∨ Ledger.Step L L') := by
  obtain ⟨hf, hi, hp, ha, hpc⟩ := hr
  cases h with
  | @fetch m h =>
    have hk : L.acked = L.fetched.length := by rwa [h] at hpc
    refine ⟨L.fetch m hk, ⟨?_, ?_, ?_, ?_, ?_⟩, Or.inr (.fetch L m hk)⟩
    · exact congrArg (· ++ [m]) hf
    · rw [L.startedList_fetch]
      exact hi
    · rw [L.handledList_fetch]
      exact hp
    · rw [L.ackedList_fetch]
      exact ha
    · exact ⟨L.fetched, rfl, L.started_eq_of_acked hk, hk⟩
  | @invoke m h =>
    rw [h] at hpc
    obtain ⟨l, hl, hs, hk⟩ := hpc
    have hlt : L.started < L.fetched.length := by simp [hl, hs]
    have hh : L.handled = l.length := by
      have h₁ := L.acked_le
      have h₂ := L.handled_le
      omega
    refine ⟨L.start hlt, ⟨hf, ?_, hp, ha, l, hl, ?_, hh, hk⟩, Or.inr (.start L hlt)⟩
    · rw [L.startedList_start m hl hs hlt, List.map_append, hi]
      rfl
    · exact congrArg (· + 1) hs
  | @callbackReturn m h =>
    rw [h] at hpc
    obtain ⟨l, hl, hs, hh, hk⟩ := hpc
    have hlt : L.handled < L.started := by omega
    have hka : L.handled = L.acked := by omega
    refine ⟨L.finish hlt hka, ⟨hf, hi, ?_, ha, ?_⟩, Or.inr (.finish L hlt hka)⟩
    · rw [L.handledList_finish m hl hh hlt hka, hp]
    · show L.handled + 1 = L.fetched.length
      simp [hl, hh]
  | acknowledge h =>
    have hk : L.handled = L.fetched.length := by rwa [h] at hpc
    refine ⟨L.ack hk, ⟨hf, hi, hp, ?_, rfl⟩, Or.inr (.ack L hk)⟩
    rw [L.ackedList_ack]
    exact hf
  | acknowledgeApplied h =>
    have hk : L.handled = L.fetched.length := by rwa [h] at hpc
    refine ⟨L.ack hk, ⟨hf, hi, hp, ?_, trivial⟩, Or.inr (.ack L hk)⟩
    rw [L.ackedList_ack]
    exact hf
  | testActive h | lock h | unlock h =>
    rw [h] at hpc
    exact ⟨L, ⟨hf, hi, hp, ha, hpc⟩, Or.inl rfl⟩
  | testInactive | fetchThrow | callThrow | callbackThrow | acknowledgeThrow | isOpen | isNotOpen
  | isOpenThrow | close | closeThrow =>
    -- the worker has left the loop, and no step of its ledger follows
    exact ⟨L, ⟨hf, hi, hp, ha, trivial⟩, Or.inl rfl⟩

/-- A receiver that is not constructed, or whose worker does not run yet, has the empty
ledger. -/
theorem empty_of_unborn (hr : Records R L) (hpc : R.pc = .unborn) : L = Ledger.empty := by
  have h := hr.pc
  rwa [hpc] at h

end Records

section Step

variable {s s' : State} {l : Label}

/-- The ledger of a receiver moves only when its worker does. -/
theorem Step.records (h : Step s l s') (hb : Born s) {r : RecvId} {L : Ledger Message}
    (hr : Records (s.recv r) L) :
    ∃ L', Records (s'.recv r) L' ∧ (L' = L ∨ Ledger.Step L L') := by
  have hm := h.recv_move r
  generalize s'.recv r = R at hm
  cases hm with
  | work hw => exact hr.step hw
  | @named t o e hf =>
    -- the exchange is set before the worker exists
    have hpc := (hb.wf r).unborn_iff.2 (hb.start_thread t _ o e r hf)
    obtain rfl := hr.empty_of_unborn hpc
    exact ⟨_, ⟨hr.fetched, hr.invoked, hr.processed, hr.acked, hr.pc⟩, Or.inl rfl⟩
  | @spawned t o e hf =>
    have hpc := (hb.wf r).unborn_iff.2 (hb.start_thread t _ o e r hf)
    obtain rfl := hr.empty_of_unborn hpc
    exact ⟨_, ⟨hr.fetched, hr.invoked, hr.processed, hr.acked, rfl⟩, Or.inl rfl⟩
  | same | lost | opened | activated | deactivated | closed | closeThrew | joined | destroyed
  | joinDestroyed => exact ⟨L, ⟨hr.fetched, hr.invoked, hr.processed, hr.acked, hr.pc⟩, Or.inl rfl⟩

end Step

section Reachable

variable {C : State → Label → Prop} {s : State}

/-- In every reachable state the lists of a receiver are those of a ledger. -/
theorem records_of_reachable (h : qpid.ReachableWhere C State.init s) (r : RecvId) :
    ∃ L, Records (s.recv r) L := by
  refine h.invariant_of (J := fun s => ∃ L, Records (s.recv r) L)
    (fun _ hr => born_of_reachable hr) ⟨Ledger.empty, ?_⟩ fun s l s' hb hs _ hst => ?_
  · exact ⟨rfl, rfl, rfl, rfl, rfl⟩
  · obtain ⟨L, hL⟩ := hs
    obtain ⟨L', hL', -⟩ := (step_cases hst).2.records hb hL
    exact ⟨L', hL'⟩

/-- **Acknowledge only what was processed.** -/
theorem acknowledge_only_processed (h : qpid.Reachable State.init s) (r : RecvId) :
    (s.recv r).invoked <+: (s.recv r).fetched.map (Receiver.callbackArgs (s.recv r).mExchange) ∧
    (s.recv r).processed <+: (s.recv r).fetched ∧
    ((s.recv r).pc = .acknowledge → (s.recv r).processed = (s.recv r).fetched) ∧
    (s.recv r).acked <+: (s.recv r).processed ∧
    (s.recv r).processed.length ≤ (s.recv r).acked.length + 1 := by
  obtain ⟨L, hL⟩ := records_of_reachable h r
  rw [hL.invoked, hL.processed, hL.acked, hL.fetched]
  refine ⟨L.started_prefix.map _, L.handled_prefix.trans L.started_prefix, fun hpc => ?_,
    L.acked_prefix, ?_⟩
  · have hk := hL.pc
    rw [hpc] at hk
    exact L.handledList_eq_fetched hk
  · simpa using L.handled_le_acked

end Reachable

/-- A receiver about to acknowledge its second message has acknowledged the first and processed
both. -/
theorem acknowledge_only_processed_second : ∃ s : State, (s.recv 0).pc = .acknowledge ∧
    (s.recv 0).acked.length = 1 ∧ (s.recv 0).fetched.length = 2 ∧
    (s.recv 0).processed = (s.recv 0).fetched ∧ (s.recv 0).acked <+: (s.recv 0).processed := by
  have hrun : ∃ s, qpid.run State.init (startLabels 0 "exchange" ++
      [.work 0 .test, .work 0 (.fetch ⟨"one", ⟨"reply"⟩⟩), .work 0 .lock, .work 0 .invoke,
        .work 0 .callbackReturn, .work 0 .unlock, .work 0 .acknowledge,
        .work 0 .test, .work 0 (.fetch ⟨"two", ⟨"reply"⟩⟩), .work 0 .lock, .work 0 .invoke,
        .work 0 .callbackReturn, .work 0 .unlock]) = some s ∧
      (s.recv 0).pc = .acknowledge ∧ (s.recv 0).acked.length = 1 ∧
      (s.recv 0).fetched.length = 2 := ⟨_, rfl, rfl, rfl, rfl⟩
  obtain ⟨s, hs, hpc, hack, hfetch⟩ := hrun
  obtain ⟨-, -, heq, hprefix, -⟩ := acknowledge_only_processed (Machine.reachable_of_run hs) 0
  exact ⟨s, hpc, hack, hfetch, heq hpc, hprefix⟩

end Comyno
