import Comyno.Qpid.Broker

/-!
# Redelivery after a stop

`receiveStop` closes the connection of a receiver before it joins the worker.  A worker that is
between the end of its callback and `sessionAcknowledge` then acknowledges on a closed connection:
the exception ends the thread in its catch block, `receiveStop` still returns `QPID_SUCCESS`, and
the message, though processed, is back in the queue.  The next receiver of the exchange processes
it again.

## Main results

* `processed_once_iff` : what a stopped receiver has processed is acknowledged, and is given to no
  later receiver, exactly when none of its acknowledgements has failed.
* `processed_twice` : a stop after which a message is processed a second time.
-/

namespace Comyno

open Conc

namespace Brokered

variable (b : Brokered)

/-- The callback of `r` was invoked for the message `d`. -/
def Invoked (r : RecvId) (d : ℕ) : Prop := d ∈ (b.fetched r).take (b.recv r).invoked.length

/-- The callback of `r` returned normally for the message `d`. -/
def Processed (r : RecvId) (d : ℕ) : Prop := d ∈ (b.fetched r).take (b.recv r).processed.length

instance (r : RecvId) (d : ℕ) : Decidable (b.Invoked r d) := inferInstanceAs (Decidable (_ ∈ _))

instance (r : RecvId) (d : ℕ) : Decidable (b.Processed r d) := inferInstanceAs (Decidable (_ ∈ _))

end Brokered

/-- `sessionAcknowledge` of the receiver `r` throws, and the broker has no acknowledgement. -/
def BrokeredLabel.losesAck (r : RecvId) : BrokeredLabel → Prop :=
  (· = .step (.messaging (.work r (.acknowledgeThrow false))))

/-! ### Acknowledgements that fail -/

/-- Between the end of the callback and the acknowledgement. -/
def WorkerPc.owes : WorkerPc → Bool
  | .unlock | .acknowledge => true
  | _ => false

/-- All processed messages are acknowledged but the one whose acknowledgement is due or, if `f` is
set, has failed. -/
structure Lags (f : Bool) (R : Receiver) : Prop where
  length : R.processed.length = R.acked.length + if R.pc.owes || f then 1 else 0
  /-- A worker whose acknowledgement has failed is on its way out. -/
  left : f = true → R.pc.left = true

namespace Lags

variable {f : Bool} {R R' : Receiver} {a : WorkerAct} {L : Ledger Message}

/-- The worker takes a step other than a failing acknowledgement. -/
theorem work (h : Lags f R) (hr : Records R L) (hw : WorkStep R a R')
    (ha : a ≠ .acknowledgeThrow false) : Lags f R' := by
  obtain ⟨hlen, hleft⟩ := h
  -- inside of the loop the flag is not set
  have hloop : R.pc.left = false → f = false := fun hpc =>
    eq_false_of_ne_true fun hf => by simp [hleft hf] at hpc
  have hdone : R.pc = .acknowledge → R.processed.length = R.fetched.length := by
    intro hpc
    have hk := hr.pc
    rw [hpc] at hk
    rw [hr.processed, L.handledList_eq_fetched hk, hr.fetched]
  cases hw with
  | acknowledgeThrow => exact absurd rfl ha
  | acknowledge hpc | acknowledgeApplied hpc =>
    obtain rfl := hloop (by rw [hpc]; rfl)
    exact ⟨hdone hpc, fun hf => by cases hf⟩
  | callbackReturn hpc =>
    obtain rfl := hloop (by rw [hpc]; rfl)
    simp only [hpc, WorkerPc.owes] at hlen
    exact ⟨by simpa [WorkerPc.owes] using hlen, fun hf => by cases hf⟩
  | testActive hpc | testInactive hpc | fetch hpc | fetchThrow hpc | lock hpc | invoke hpc
  | callThrow hpc | callbackThrow hpc | unlock hpc =>
    obtain rfl := hloop (by rw [hpc]; rfl)
    simp only [hpc, WorkerPc.owes] at hlen
    exact ⟨hlen, fun hf => by cases hf⟩
  | isOpen hpc | isNotOpen hpc | isOpenThrow hpc | close hpc | closeThrow hpc =>
    simp only [hpc, WorkerPc.owes] at hlen
    exact ⟨hlen, fun _ => rfl⟩

/-- The acknowledgement of the worker fails. -/
theorem fail (h : Lags f R) (hw : WorkStep R (.acknowledgeThrow false) R') : Lags true R' := by
  cases hw with
  | acknowledgeThrow hpc =>
    have hlen := h.length
    simp only [hpc, WorkerPc.owes, Bool.true_or, if_true] at hlen
    exact ⟨by simpa [WorkerPc.owes] using hlen, fun _ => rfl⟩

end Lags

section Step

variable {s s' : State} {l : Label}

/-- A step of another thread, or a step of the worker other than a failing acknowledgement. -/
theorem Step.lags (h : Step s l s') (hb : Born s) {f : Bool} {r : RecvId} {L : Ledger Message}
    (hr : Records (s.recv r) L) (hs : Lags f (s.recv r))
    (hl : l ≠ .work r (.acknowledgeThrow false)) : Lags f (s'.recv r) := by
  have hm := h.recv_move r
  generalize s'.recv r = R at hm
  cases hm with
  | work hw => exact hs.work hr hw fun ha => hl (by rw [ha])
  | spawned hf =>
    have hpc := (hb.wf r).unborn_iff.2 (hb.start_thread _ _ _ _ _ hf)
    obtain ⟨hlen, hleft⟩ := hs
    obtain rfl : f = false := eq_false_of_ne_true fun hf => by
      simpa [hpc, WorkerPc.left] using hleft hf
    simp only [hpc, WorkerPc.owes] at hlen
    exact ⟨hlen, fun hf => by cases hf⟩
  | same | lost | opened | named | activated | deactivated | closed | closeThrew | joined
  | destroyed | joinDestroyed => exact ⟨hs.length, hs.left⟩

end Step

/-! ### Receivers that were stopped -/

/-- The worker of a receiver that was stopped has ended. -/
def StopsExited (b : Brokered) : Prop := ∀ r ∈ b.stopped, (b.recv r).pc = .exited

section Broker

variable {parse : AddressParser} {b b' : Brokered} {l : BrokeredLabel}

/-- `receiveStop` returns `QPID_SUCCESS` only once the worker has ended. -/
theorem exited_of_stops {t : Thread} {x : Outcome} {s : State}
    (h : Step b.process.messaging (.exec t x) s) (hb : Born b.process.messaging) {r : RecvId}
    (hr : b.stops t { b.process with messaging := s } = some r) : (s.recv r).pc = .exited := by
  unfold Brokered.stops at hr
  split at hr
  · rename_i pc o e q o' e' hf hf'
    cases hr
    have hthread := hb.stop_thread t pc _ r hf
    have hjoined := (hb.wf r).exited_of_joined
    cases h <;> simp_all [StopCaller.frame]
    cases hk : (b.process.messaging.recv r).thread <;> simp_all
  · cases hr

theorem BrokeredStep.stopsExited (h : BrokeredStep parse b l b') (hb : Born b.process.messaging)
    (hs : StopsExited b) : StopsExited b' := by
  -- a worker that has ended takes no further step
  have hkeep : ∀ {l : Label} {s : State}, Step b.process.messaging l s → ∀ r ∈ b.stopped,
      (s.recv r).pc = .exited := by
    intro l s hst r hr
    rcases hst.pc_cases hb r with hpc | ⟨_, _, -, -, hw⟩ | ⟨hpc, -⟩
    · rw [hpc]
      exact hs r hr
    · exact absurd (hs r hr) hw.pc_ne.2.2
    · exact absurd ((hs r hr).symm.trans hpc) (by simp)
  cases h with
  | arrive => exact hs
  | fetch _ _ _ _ hst => exact hkeep (step_cases hst).2
  | @step l p _ hp =>
    intro r hr
    cases process_step_cases hp with
    | send | exec => exact hs r hr
    | @messaging l s _ hst =>
      have hst := (step_cases hst).2
      cases l with
      | exec t x =>
        rcases List.mem_append.1 hr with hr | hr
        · exact hkeep hst r hr
        · exact exited_of_stops hst hb (Option.mem_toList.1 hr)
      | _ => exact hkeep hst r hr

/-- An acknowledged message stays acknowledged, and nobody fetches it. -/
theorem BrokeredStep.acked (h : BrokeredStep parse b l b') {q r : RecvId} {d : ℕ}
    (hd : b.broker.place d = .acked r) :
    b'.broker.place d = .acked r ∧ (d ∉ b.fetched q → d ∉ b'.fetched q) := by
  cases h with
  | arrive => exact ⟨hd, id⟩
  | @fetch p x m s _ _ hx =>
    have hne : d ≠ x := by
      rintro rfl
      rw [hd] at hx
      cases hx
    refine ⟨(Broker.Move.deliver p x hx).place_eq_acked hd, fun hq => ?_⟩
    by_cases hqp : q = p
    · subst hqp
      simp [Brokered.afterFetch, hq, hne]
    · simpa [Brokered.afterFetch, hqp] using hq
  | step =>
    refine ⟨?_, id⟩
    rw [Brokered.afterStep, Broker.place_close_eq_acked, Brokered.place_serve_eq_acked]
    exact Or.inl hd

end Broker

section Runs

variable {parse : AddressParser} {b b' : Brokered} {ls : List BrokeredLabel} {r q : RecvId} {d : ℕ}

theorem stopsExited_of_reachable (h : (brokered parse).Reachable {} b) : StopsExited b :=
  h.invariant_of (fun _ hr => born_of_reachable (qpid_reachable_of_brokered hr))
    (fun _ hr => by cases hr) fun _ _ _ hb hs _ hst => (brokered_step_cases hst).stopsExited hb hs

/-- An acknowledged message stays acknowledged, and nobody fetches it. -/
theorem acked_of_reachable (h : (brokered parse).Reachable b b') (hd : b.broker.place d = .acked r)
    (hq : d ∉ b.fetched q) : d ∉ b'.fetched q := by
  have key : b'.broker.place d = .acked r ∧ d ∉ b'.fetched q :=
    h.invariant (I := fun b => b.broker.place d = .acked r ∧ d ∉ b.fetched q) ⟨hd, hq⟩
      fun _ _ _ hs _ hst =>
        have hacked := (brokered_step_cases hst).acked hs.1
        ⟨hacked.1, hacked.2 hs.2⟩
  exact key.2

/-- A receiver that is not constructed yet has fetched nothing. -/
theorem fetched_of_next_le (h : (brokered parse).Reachable {} b)
    (hq : b.process.messaging.next ≤ q) : b.fetched q = [] := by
  have hfresh := (life_of_reachable (qpid_reachable_of_brokered h)).fresh q hq
  refine List.length_eq_zero_iff.1 ?_
  rw [(books_of_reachable h q).length_fetched, Brokered.recv, hfresh]
  rfl

theorem lags_step {l : BrokeredLabel} {f : Bool} (h : (brokered parse).Reachable {} b)
    (hst : (brokered parse).step b l = some b') (hs : Lags f (b.recv r)) (hl : ¬ l.losesAck r) :
    Lags f (b'.recv r) := by
  have hq := qpid_reachable_of_brokered h
  obtain ⟨L, hL⟩ := records_of_reachable hq r
  have hb := born_of_reachable hq
  cases brokered_step_cases hst with
  | arrive => exact hs
  | fetch _ _ _ _ hm => exact (step_cases hm).2.lags hb hL hs (by simp)
  | step _ hp =>
    cases process_step_cases hp with
    | send | exec => exact hs
    | messaging _ hm => exact (step_cases hm).2.lags hb hL hs fun he => hl (by rw [he]; rfl)

theorem lags_fail {l : BrokeredLabel} {f : Bool} (hst : (brokered parse).step b l = some b')
    (hs : Lags f (b.recv r)) (hl : l.losesAck r) : Lags true (b'.recv r) := by
  cases hl
  cases brokered_step_cases hst with
  | step _ hp =>
    cases process_step_cases hp with
    | messaging _ hm =>
      cases (step_cases hm).2 with
      | @work _ _ _ _ R _ _ hw => simpa [Brokered.afterStep, Brokered.recv] using hs.fail hw

/-- The flag tells whether an acknowledgement of `r` has failed in the run. -/
theorem lags_of_run (h : (brokered parse).run {} ls = some b) (r : RecvId) :
    (∀ l ∈ ls, ¬ l.losesAck r) ∧ Lags false (b.recv r) ∨
      (¬ ∀ l ∈ ls, ¬ l.losesAck r) ∧ Lags true (b.recv r) := by
  have hall : (brokered parse).AllSteps (fun _ l => ¬ l.losesAck r) {} ls ↔
      ∀ l ∈ ls, ¬ l.losesAck r :=
    ⟨Machine.labels_of_allSteps h, fun hl => Machine.allSteps_of_labels fun l hm _ => hl l hm⟩
  have hflag := Machine.flag_of_run (M := brokered parse)
    (I := fun f b => (brokered parse).Reachable {} b ∧ Lags f (b.recv r))
    (D := fun _ _ => True) (C := fun _ l => ¬ l.losesAck r)
    (fun f b l b' hs _ hl hst => ⟨hs.1.tail trivial hst, lags_step hs.1 hst hs.2 hl⟩)
    (fun f b l b' hs _ hl hst => ⟨hs.1.tail trivial hst, lags_fail hst hs.2 (not_not.1 hl)⟩)
    (b := false) ⟨.refl _, rfl, fun hf => by cases hf⟩ h
    (Machine.allSteps_of_labels fun _ _ _ => trivial)
  rw [hall] at hflag
  exact hflag.imp (fun hf => ⟨hf.1, hf.2.2⟩) fun hf => ⟨hf.1, hf.2.2⟩

/-- **Processed once.**  After `qpidReceiveStop` has returned `QPID_SUCCESS`, every message for
which the callback of the stopped receiver returned normally is acknowledged, and no receiver
that is started later invokes a callback for it, exactly when no acknowledgement of the receiver
failed to reach the broker. -/
theorem processed_once_iff (h : (brokered parse).run {} ls = some b) (hr : r ∈ b.stopped) :
    (∀ d, b.Processed r d → b.broker.place d = .acked r ∧
      ∀ ls' b', (brokered parse).run b ls' = some b' →
        ∀ q, b.process.messaging.next ≤ q → ¬ b'.Invoked q d) ↔
    ∀ l ∈ ls, ¬ l.losesAck r := by
  have hreach := Machine.reachable_of_run h
  have hbooks := books_of_reachable hreach r
  obtain ⟨L, hL⟩ := records_of_reachable (qpid_reachable_of_brokered hreach) r
  rcases lags_of_run h r with ⟨hall, hlags⟩ | ⟨hnot, hlags⟩
  · refine iff_of_true (fun d hd => ?_) hall
    have hlen := hlags.length
    rw [stopsExited_of_reachable hreach r hr] at hlen
    have hacked : b.broker.place d = .acked r := by
      rw [hbooks.acked]
      simpa [Brokered.Processed, hlen, WorkerPc.owes] using hd
    refine ⟨hacked, fun ls' b' hrun q hq hinv => ?_⟩
    refine acked_of_reachable (Machine.reachable_of_run hrun) hacked ?_ (List.mem_of_mem_take hinv)
    rw [fetched_of_next_le hreach hq]
    exact List.not_mem_nil
  · refine iff_of_false (fun hall => ?_) hnot
    -- the last processed message is not acknowledged
    have hlen := hlags.length
    simp only [Bool.or_true, if_true] at hlen
    have hlt : (b.recv r).acked.length < (b.fetched r).length := by
      have hle : (b.recv r).processed.length ≤ (b.recv r).fetched.length :=
        (acknowledge_only_processed (qpid_reachable_of_brokered hreach) r).2.1.length_le
      rw [hbooks.length_fetched]
      omega
    have hacked := (hall ((b.fetched r)[(b.recv r).acked.length]) ?_).1
    · rw [hbooks.acked, List.mem_take_iff_getElem] at hacked
      obtain ⟨i, hi, heq⟩ := hacked
      have := hbooks.nodup.getElem_inj_iff.1 heq
      omega
    · exact List.mem_take_iff_getElem.2 ⟨_, by omega, rfl⟩

end Runs

/-- The receiver `r` fetches the message `d` and calls the callback, which returns. -/
def consumeLabels (r : RecvId) (d : ℕ) : List BrokeredLabel :=
  messagingSteps [.work r .test] ++ .fetch r d :: messagingSteps
    [.work r .lock, .work r .invoke, .work r .callbackReturn, .work r .unlock]

/-- `qpidReceiveStop(e)` on `o` up to the join of the worker. -/
def stopLabels (o : ObjId) (e : String) : List Label :=
  .call (.app o) (.qpidReceiveStop o e) :: List.replicate 5 (.exec (.app o) .ok)

/-- A message is processed and acknowledged, and its receiver stopped. -/
def processedOnce : List BrokeredLabel :=
  messagingSteps (startLabels 0 "exchange") ++ .arrive ⟨"exchange", ⟨"message", ⟨"reply"⟩⟩⟩ ::
    consumeLabels 0 0 ++ messagingSteps (.work 0 .acknowledge :: stopLabels 0 "exchange" ++
      [.work 0 .test] ++ List.replicate 4 (.exec (.app 0) .ok))

/-- The connection is closed while the worker is at `sessionAcknowledge`. -/
def processedTwice : List BrokeredLabel :=
  messagingSteps (startLabels 0 "exchange") ++ .arrive ⟨"exchange", ⟨"message", ⟨"reply"⟩⟩⟩ ::
    consumeLabels 0 0 ++ messagingSteps (stopLabels 0 "exchange" ++
      [.work 0 (.acknowledgeThrow false), .work 0 .isOpen] ++ List.replicate 4 (.exec (.app 0) .ok))

theorem processed_once_of_clean_stop : ∃ b, (brokered plainName).run {} processedOnce = some b ∧
    b.process.messaging.frame (.app 0) = .idle (some (.status .qpidSuccess)) ∧
    b.Processed 0 0 ∧ b.broker.place 0 = .acked 0 ∧
    ∀ ls' b', (brokered plainName).run b ls' = some b' →
      ∀ q, b.process.messaging.next ≤ q → ¬ b'.Invoked q 0 := by
  have hrun : ∃ b, (brokered plainName).run {} processedOnce = some b ∧
      b.process.messaging.frame (.app 0) = .idle (some (.status .qpidSuccess)) ∧
      b.stopped = [0] ∧ b.Processed 0 0 :=
    ⟨_, rfl, rfl, rfl, by decide⟩
  obtain ⟨b, hb, hframe, hstopped, hprocessed⟩ := hrun
  refine ⟨b, hb, hframe, hprocessed, (processed_once_iff hb (by simp [hstopped])).2 ?_ 0 hprocessed⟩
  simp only [BrokeredLabel.losesAck]
  decide

/-- **A message is processed twice.**  `qpidReceiveStop` returns `QPID_SUCCESS` while the message
whose callback has returned is back in the queue, and the callback of the receiver started next is
invoked for it again. -/
theorem processed_twice : ∃ b, (brokered plainName).run {} processedTwice = some b ∧
    b.process.messaging.frame (.app 0) = .idle (some (.status .qpidSuccess)) ∧ 0 ∈ b.stopped ∧
    b.Processed 0 0 ∧ b.broker.place 0 = .queued ∧
    ∃ b', (brokered plainName).run b
        (messagingSteps (startLabels 0 "exchange") ++ consumeLabels 1 0) = some b' ∧
      b.process.messaging.next = 1 ∧ b'.Invoked 1 0 :=
  ⟨_, rfl, rfl, List.mem_cons_self, by decide, rfl, _, rfl, rfl, by decide⟩

end Comyno
