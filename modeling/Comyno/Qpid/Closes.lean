import Comyno.Qpid.Ownership
import Comyno.Qpid.ReceiverCalls

/-!
# A connection is closed at most twice

The flag `mReceivingActive` and the worker are two licences to close the connection of a receiver:
whoever finds the flag set clears it and closes the connection, and so does a worker that finds it
open in its catch block.  The catch block of `receiveMessages` closes it before a worker exists.

The flag is tested and cleared in two accesses.  Two operations that overlap could both find it set
and close the connection once each, so the runs are race free (`RaceFree`).  Then no connection is
closed more than twice, whatever throws.

## Main results

* `Budget.step` : no step uses more than its licence.
* `closes_le_two` : at most two closes for each receiver of a race-free run.
-/

namespace Comyno

open Conc

/-- The worker has still to come to the end of its thread function. -/
def WorkerPc.alive : WorkerPc → Bool
  | .unborn | .exited => false
  | .test | .fetch | .lock _ | .call _ | .callback _ | .unlock | .acknowledge | .handler
  | .handlerClose => true

/-- Some operation may close the connection of `r`, now or after clearing its flag. -/
def Licensed (s : State) (r : RecvId) : Prop :=
  (s.recv r).mReceivingActive = true ∨ ∃ t, (s.frame t).closes r

/-- The closes of the connection of `r` that are over leave room for those to come. -/
structure Budget (s : State) (r : RecvId) : Prop where
  le_two : (s.recv r).closes ≤ 2
  licensed : Licensed s r → (s.recv r).closes ≤ 1
  alive : (s.recv r).pc.alive = true → (s.recv r).closes ≤ 1
  both : Licensed s r → (s.recv r).pc.alive = true → (s.recv r).closes = 0
  building : ∀ t pc o e, s.frame t = .start pc o e r → (s.recv r).closes = 0
  closer_unique : ∀ t u, (s.frame t).closes r → (s.frame u).closes r → u = t

theorem WorkerPc.alive_of_ne {pc : WorkerPc} (hu : pc ≠ .unborn) (he : pc ≠ .exited) :
    pc.alive = true := by
  cases pc with
  | unborn => exact absurd rfl hu
  | exited => exact absurd rfl he
  | _ => rfl

/-- A worker that closes the connection ends with it. -/
theorem WorkStep.closes_cases {R R' : Receiver} {a : WorkerAct} (h : WorkStep R a R') :
    R'.closes = R.closes ∨ R'.closes = R.closes + 1 ∧ R'.pc = .exited := by
  cases h with
  | close | closeThrow => exact Or.inr ⟨rfl, rfl⟩
  | _ => exact Or.inl rfl

variable {s s' : State} {l : Label} {r : RecvId}

theorem Budget.init (r : RecvId) : Budget State.init r where
  le_two := Nat.zero_le _
  licensed _ := Nat.zero_le _
  alive _ := Nat.zero_le _
  both _ _ := rfl
  building _ _ _ _ _ := rfl
  closer_unique _ _ h := by cases h

/-- A closer outside of `receiveMessages` finds the flag cleared. -/
theorem Born.inactive_of_closes (hb : Born s) {t : Thread} (h : (s.frame t).closes r)
    (hne : ∀ pc o e, s.frame t ≠ .start pc o e r) : (s.recv r).mReceivingActive = false := by
  cases hf : s.frame t with
  | start pc o e q =>
    rw [hf] at h
    obtain ⟨-, rfl⟩ := h
    exact absurd hf (hne pc o e)
  | stop pc k q =>
    rw [hf] at h
    obtain ⟨rfl, rfl⟩ := h
    exact hb.stop_inactive t _ k q hf rfl
  | dtor pc k q =>
    rw [hf] at h
    obtain ⟨rfl, rfl⟩ := h
    exact hb.dtor_inactive t _ k q hf rfl
  | _ =>
    rw [hf] at h
    cases h

/-- Whoever closes after a step closed before, or has just cleared the flag, or has just failed to
start the receiver. -/
theorem Step.closes_of_frame (h : Step s l s') {t : Thread} (ht : (s'.frame t).closes r) :
    (s.frame t).closes r ∨ l.thread = some t ∧ (s.frame t).clears r ∨
      l.thread = some t ∧ ∃ pc o e, s.frame t = .start pc o e r := by
  by_cases hl : l.thread = some t
  · cases h <;> simp_all [Label.thread]
  · exact Or.inl (h.frame_of_ne hl ▸ ht)

/-- After a close of `receiveMessages`, nobody starts the receiver. -/
theorem Step.not_start_of_closes (h : Step s l s') (hs : Life s) {t : Thread} {x : Outcome}
    (hl : l = .exec t x) (ht : (s.frame t).closes r) {u : Thread} {pc : StartPc} {o : ObjId}
    {e : String} : s'.frame u ≠ .start pc o e r := by
  intro hu
  have hrecv := Frame.recv_of_closes ht
  have hself : ∀ pc o e, s.frame u = .start pc o e r → False := by
    intro pc₀ o₀ e₀ hf
    obtain rfl := hs.builds_unique u t r (by simp [hf]) hrecv
    rw [hf] at ht
    obtain ⟨rfl, -⟩ := ht
    cases h <;> simp_all
  rcases h.start_of_frame hu with hf | ⟨_, pc', -, hf⟩ | ⟨-, -, hr⟩
  · exact hself _ _ _ hf
  · exact hself _ _ _ hf
  · exact absurd (hs.frame_lt t r hrecv) (by rw [hr]; exact lt_irrefl _)

namespace Budget

/-- A step after which no closer is left but the one before. -/
theorem unique_step (h : Budget s r) (hs : Life s) (ho : Owned s) (hst : Step s l s') :
    ∀ t u, (s'.frame t).closes r → (s'.frame u).closes r → u = t := by
  -- a closer before the step and one that has just cleared the flag
  have hcleared : ∀ t u, (s.frame t).closes r → (s.frame u).clears r → u = t :=
    fun t u ht hu => ho.recv_unique hs (Frame.recv_of_closes ht) (Frame.recv_of_clears hu)
  -- a closer before the step and the operation that builds the receiver
  have hbuilt : ∀ t u, (s.frame t).closes r → (∃ pc o e, s.frame u = .start pc o e r) → u = t := by
    rintro t u ht ⟨pc, o, e, hf⟩
    exact (hs.builds_unique u t r (by simp [hf]) (Frame.recv_of_closes ht)).symm
  intro t u ht hu
  rcases hst.closes_of_frame ht with ht | ⟨htl, hclears⟩ | ⟨htl, hstart⟩ <;>
    rcases hst.closes_of_frame hu with hu | ⟨hul, hclears'⟩ | ⟨hul, hstart'⟩
  · exact h.closer_unique t u ht hu
  · exact hcleared t u ht hclears'
  · exact hbuilt t u ht hstart'
  · exact (hcleared u t hu hclears).symm
  · exact Option.some.inj (hul.symm.trans htl)
  · exact Option.some.inj (hul.symm.trans htl)
  · exact (hbuilt u t hu hstart).symm
  · exact Option.some.inj (hul.symm.trans htl)
  · exact Option.some.inj (hul.symm.trans htl)

/-- A step that does not close the connection. -/
theorem of_closes_eq (h : Budget s r) (hs : Life s) (ho : Owned s) (hst : Step s l s')
    (hcloses : (s'.recv r).closes = (s.recv r).closes)
    (hflag : (s'.recv r).mReceivingActive = true →
      Licensed s r ∨ ∃ t pc o e, s.frame t = .start pc o e r)
    (hpc : (s'.recv r).pc.alive = true →
      (s.recv r).pc.alive = true ∨ ∃ t pc o e, s.frame t = .start pc o e r) : Budget s' r := by
  have hzero : (∃ t pc o e, s.frame t = .start pc o e r) → (s.recv r).closes = 0 :=
    fun hb => by obtain ⟨t, pc, o, e, hf⟩ := hb; exact h.building t pc o e hf
  have hlic : Licensed s' r → Licensed s r ∨ (s.recv r).closes = 0 := by
    rintro (hact | ⟨t, ht⟩)
    · exact (hflag hact).imp_right hzero
    · rcases hst.closes_of_frame ht with ht | ⟨-, hclears⟩ | ⟨-, hstart⟩
      · exact Or.inl (Or.inr ⟨t, ht⟩)
      · exact Or.inl (Or.inl (ho.clear_active t r hclears))
      · exact Or.inr (hzero ⟨t, hstart⟩)
  have halive := fun h' => (hpc h').imp_right hzero
  refine ⟨hcloses ▸ h.le_two, fun hl => ?_, fun ha => ?_, fun hl ha => ?_,
    fun t pc o e hf => ?_, h.unique_step hs ho hst⟩ <;> rw [hcloses]
  · rcases hlic hl with hl | hz
    · exact h.licensed hl
    · omega
  · rcases halive ha with ha | hz
    · exact h.alive ha
    · omega
  · rcases hlic hl with hl | hz
    · rcases halive ha with ha | hz
      · exact h.both hl ha
      · exact hz
    · exact hz
  · rcases hst.start_of_frame hf with hf | ⟨_, pc', -, hf⟩ | ⟨-, -, hr⟩
    · exact h.building t pc o e hf
    · exact h.building t pc' o e hf
    · rw [hs.fresh r (Nat.le_of_eq hr)]

/-- The worker closes the connection it has found open, and ends. -/
theorem worker_closes (h : Budget s r) (hb : Born s)
    (hframe : s'.frame = s.frame) (halive : (s.recv r).pc.alive = true)
    (hcloses : (s'.recv r).closes = (s.recv r).closes + 1)
    (hflag : (s'.recv r).mReceivingActive = (s.recv r).mReceivingActive)
    (hpc : (s'.recv r).pc = .exited) : Budget s' r := by
  have hle := h.alive halive
  have hlic : Licensed s' r → (s.recv r).closes = 0 := by
    intro hl
    unfold Licensed at hl
    rw [hflag, hframe] at hl
    exact h.both hl halive
  refine ⟨by omega, fun hl => ?_, fun ha => ?_, fun _ ha => ?_, fun t pc o e hf => ?_, ?_⟩
  · rw [hcloses, hlic hl]
  · rw [hpc] at ha
    cases ha
  · rw [hpc] at ha
    cases ha
  · rw [hframe] at hf
    have hunborn := (hb.wf r).unborn_iff.2 (hb.start_thread t pc o e r hf)
    rw [hunborn] at halive
    cases halive
  · rw [hframe]
    exact h.closer_unique

/-- An operation closes the connection, and the process goes on. -/
theorem operation_closes (h : Budget s r) (hs : Life s) (hb : Born s) (ho : Owned s)
    (hst : Step s l s')
    {t : Thread} {x : Outcome} (hl : l = .exec t x) (ht : (s.frame t).closes r)
    (ht' : ¬ (s'.frame t).closes r) (hcloses : (s'.recv r).closes = (s.recv r).closes + 1)
    (hflag : (s'.recv r).mReceivingActive = (s.recv r).mReceivingActive)
    (hpc : (s'.recv r).pc = (s.recv r).pc) : Budget s' r := by
  have hle := h.licensed (Or.inr ⟨t, ht⟩)
  have hother : ∀ u, (s'.frame u).closes r → u = t := by
    intro u hu
    by_cases hut : u = t
    · exact hut
    · rw [hst.frame_of_ne (by rw [hl]; exact fun h => hut (Option.some.inj h).symm)] at hu
      exact h.closer_unique t u ht hu
  have hbuilding : ∀ u pc o e, s'.frame u ≠ .start pc o e r :=
    fun u pc o e => hst.not_start_of_closes hs hl ht
  by_cases hstart : ∃ pc o e, s.frame t = .start pc o e r
  · -- the catch block of `receiveMessages`, before there is a worker
    obtain ⟨pc, o, e, hf⟩ := hstart
    have hzero := h.building t pc o e hf
    have hunborn := (hb.wf r).unborn_iff.2 (hb.start_thread t pc o e r hf)
    have hdead : (s'.recv r).pc.alive = false := by
      rw [hpc, hunborn]
      rfl
    refine ⟨by omega, fun _ => by omega, fun ha => ?_, fun _ ha => ?_,
      fun u pc o e hu => absurd hu (hbuilding u pc o e), h.unique_step hs ho hst⟩
    · omega
    · rw [hdead] at ha
      cases ha
  · push Not at hstart
    have hcleared := hb.inactive_of_closes ht hstart
    have hnot : ¬ Licensed s' r := by
      rintro (hact | ⟨u, hu⟩)
      · rw [hflag, hcleared] at hact
        cases hact
      · exact ht' (hother u hu ▸ hu)
    refine ⟨by omega, fun hl => absurd hl hnot, fun ha => ?_, fun hl => absurd hl hnot,
      fun u pc o e hu => absurd hu (hbuilding u pc o e), h.unique_step hs ho hst⟩
    rw [hpc] at ha
    have hzero := h.both (Or.inr ⟨t, ht⟩) ha
    omega

/-- **No step uses more than its licence**, as long as the process goes on. -/
theorem step (h : Budget s r) (hs : Life s) (hb : Born s) (ho : Owned s) (hst : Step s l s') :
    (s'.recv r).closes ≤ 2 ∧ (s'.halted = none → Budget s' r) := by
  have hm := hst.recv_move r
  generalize hR : s'.recv r = R at hm
  have hkept : (s'.recv r).closes = (s.recv r).closes → ((s'.recv r).mReceivingActive = true →
      Licensed s r ∨ ∃ t pc o e, s.frame t = .start pc o e r) →
      ((s'.recv r).pc.alive = true →
        (s.recv r).pc.alive = true ∨ ∃ t pc o e, s.frame t = .start pc o e r) →
      R.closes ≤ 2 ∧ (s'.halted = none → Budget s' r) := by
    intro hcloses hflag hpc
    have hkeep := h.of_closes_eq hs ho hst hcloses hflag hpc
    exact ⟨hR ▸ hkeep.le_two, fun _ => hkeep⟩
  cases hm with
  | work hw =>
    have hframe : s'.frame = s.frame := funext fun u => hst.frame_of_ne (by simp [Label.thread])
    have halive : (s.recv r).pc.alive = true := WorkerPc.alive_of_ne hw.pc_ne.1 hw.pc_ne.2.2
    obtain ⟨-, hflag, -, -⟩ := hw.keeps
    rcases hw.closes_cases with hcloses | ⟨hcloses, hpc⟩
    · refine hkept (by rw [hR, hcloses]) (fun hact => Or.inl (Or.inl ?_)) fun _ => Or.inl halive
      rw [← hflag, ← hR]
      exact hact
    · have hclose := h.worker_closes hb hframe halive (by rw [hR, hcloses]) (by rw [hR, hflag])
        (by rw [hR, hpc])
      exact ⟨hR ▸ hclose.le_two, fun _ => hclose⟩
  | closed ht ht' =>
    have hclose := h.operation_closes hs hb ho hst rfl ht ht' (by rw [hR]; rfl) (by rw [hR]; rfl)
      (by rw [hR]; rfl)
    exact ⟨by simpa [hR] using hclose.le_two, fun _ => hclose⟩
  | closeThrew ht ht' =>
    have hle := h.licensed (Or.inr ⟨_, ht⟩)
    refine ⟨Nat.succ_le_succ hle, fun hhalt => ?_⟩
    exact h.operation_closes hs hb ho hst rfl ht (ht'.resolve_right fun hne => hne hhalt)
      (by rw [hR]; rfl) (by rw [hR]; rfl) (by rw [hR]; rfl)
  | activated hf =>
    refine hkept (by rw [hR]) (fun _ => Or.inr ⟨_, _, _, _, hf⟩) fun ha => Or.inl ?_
    rw [hR] at ha
    exact ha
  | spawned hf =>
    refine hkept (by rw [hR]) (fun hact => Or.inl (Or.inl ?_)) fun _ => Or.inr ⟨_, _, _, _, hf⟩
    rw [hR] at hact
    exact hact
  | deactivated =>
    refine hkept (by rw [hR]) (fun hact => ?_) fun ha => Or.inl ?_
    · rw [hR] at hact
      cases hact
    · rw [hR] at ha
      exact ha
  | same | lost | opened | named | joined | destroyed | joinDestroyed =>
    refine hkept (by rw [hR]) (fun hact => Or.inl (Or.inl ?_)) fun ha => Or.inl ?_
    · rw [hR] at hact
      exact hact
    · rw [hR] at ha
      exact ha

end Budget

/-- **No connection is closed more than twice.**  In every run in which no operation on an exchange
begins while another thread stops it, with any number of objects and threads, every pattern of
exceptions (of `closeConnection` too) and every interleaving, at most two calls of
`closeConnection` are made for a receiver. -/
theorem closes_le_two {s : State} (h : qpid.ReachableWhere RaceFree State.init s) (r : RecvId) :
    (s.recv r).closes ≤ 2 := by
  have hbudget : (s.recv r).closes ≤ 2 ∧ (s.halted = none → Budget s r) := by
    refine h.invariant_of (I := fun s => (Life s ∧ Born s) ∧ Owned s)
      (J := fun s => (s.recv r).closes ≤ 2 ∧ (s.halted = none → Budget s r))
      (fun s hs => ⟨life_and_born_of_reachable hs, owned_of_reachable (fun _ _ hc => hc) hs⟩)
      ⟨Nat.zero_le _, fun _ => .init r⟩ ?_
    rintro s l s' ⟨⟨hlife, hborn⟩, howned⟩ ⟨-, hb⟩ - hst
    obtain ⟨hrunning, hst⟩ := step_cases hst
    exact (hb hrunning).step hlife hborn howned hst
  exact hbudget.1

/-- The bound is reached: the worker closes the connection of a receiver that is started, and the
stop that follows closes it again. -/
theorem closes_le_two_reached : ∃ ls s, qpid.run State.init ls = some s ∧
    (s.recv 0).closes = 2 ∧ (s.recv 0).closes ≤ 2 := by
  have hrun : ∃ s, qpid.run State.init (startLabels 0 "exchange" ++ .work 0 .test ::
      .work 0 .fetchThrow :: .work 0 .isOpen :: .work 0 .close ::
        .call (.app 0) (.qpidReceiveStop 0 "exchange") ::
          List.replicate 9 (.exec (.app 0) .ok)) = some s ∧ (s.recv 0).closes = 2 :=
    ⟨_, rfl, rfl⟩
  obtain ⟨s, hs, hcloses⟩ := hrun
  have hrace : qpid.ReachableWhere RaceFree State.init s :=
    raceFree_of_run hs (by simp [startLabels, AppOnly, Operation.object])
  exact ⟨_, s, hs, hcloses, closes_le_two hrace 0⟩

end Comyno
