import Comyno.Qpid.Ownership

/-!
# How often a connection is closed

Four places call `closeConnection` on the connection of a receiver: the catch block of
`receiveMessages`, `receiveStop`, `~QPIDReceiver`, and the catch block of `waitForMessages`.  The
first three exclude each other, up to one case, by `mReceivingActive`; the worker asks the
connection instead, and does not tell the others that it closed it.

For each receiver, the closes that have happened and those that are still due
(`State.closesDue`) are counted together.  The sum starts at one and grows at two kinds of steps
(`ClosesAgain`): the creation of the worker thread fails, with the flag already set; or the worker
finds the connection open in its catch block.

## Main results

* `Step.closesTotal` : the sum is kept by every other step.
* `one_le_closes` : no connection is leaked.
* `closes_eq_one_iff` : the connection of a destroyed receiver was closed exactly once if and only
  if none of these steps happened to it, in a run in which no operation on an exchange begins while
  another thread stops it (`RaceFree`).
-/

namespace Comyno

/-- The operation will close the connection of `r`, apart from what `mReceivingActive` says. -/
def Frame.owes (r : RecvId) : Frame → Bool
  | .start pc _ _ q => decide (q = r) && decide (pc ≠ .createThread)
  | .stop pc _ q => decide (q = r) && decide (pc = .close)
  | .dtor pc _ q => decide (q = r) && decide (pc = .close)
  | _ => false

open Classical in
/-- One if some operation owes a close of the connection of `r`. -/
noncomputable def State.owed (s : State) (r : RecvId) : ℕ :=
  if ∃ t, (s.frame t).owes r = true then 1 else 0

/-- The closes of the connection of `r` that are still due. -/
noncomputable def State.closesDue (s : State) (r : RecvId) : ℕ :=
  (if s.next ≤ r then 1 else 0) + (if (s.recv r).mReceivingActive then 1 else 0) + s.owed r +
    (if (s.recv r).pc = .handlerClose then 1 else 0)

/-- The closes of the connection of `r`, past and due. -/
noncomputable def State.closesTotal (s : State) (r : RecvId) : ℕ :=
  (s.recv r).closes + s.closesDue r

/-- The step makes one more close due: the thread of `r` cannot be created, or the worker of `r`
finds its connection open in the catch block. -/
def ClosesAgain (r : RecvId) (s : State) (l : Label) : Prop :=
  (∃ t o e, l = .exec t .throw ∧ s.frame t = .start .createThread o e r) ∨
    l = .work r .isOpen ∧ (s.recv r).isOpen = true

/-- The step is not a `closeConnection` that throws. -/
def CloseReturns (s : State) (l : Label) : Prop :=
  (∀ t r, l = .exec t .throw → ¬ (s.frame t).closes r) ∧ ∀ r, l ≠ .work r .closeThrow

section Step

variable {s s' : State} {l : Label} {t : Thread} {r : RecvId}

theorem Frame.recv_of_owes {f : Frame} (h : f.owes r = true) : f.recv = some r := by
  cases f <;> simp_all [owes]

@[simp] theorem StopCaller.not_owes (k : StopCaller) (st : QPIDStatus) :
    (k.frame st).owes r = false := by cases k <;> rfl

@[simp] theorem DtorCaller.not_owes (d : DtorCaller) : d.frame.owes r = false := by cases d <;> rfl

/-- The closes of the connection of `r`, if `t` is the only thread that works on it. -/
def closesWith (new : Bool) (R : Receiver) (f : Frame) (r : RecvId) : ℕ :=
  R.closes + ((if new then 1 else 0) + (if R.mReceivingActive then 1 else 0) +
    (if f.owes r = true then 1 else 0) + (if R.pc = .handlerClose then 1 else 0))

theorem State.owed_congr (h : ∀ u, (s'.frame u).owes r = (s.frame u).owes r) :
    s'.owed r = s.owed r := by
  classical exact if_congr (exists_congr fun u => by rw [h u]) rfl rfl

theorem State.closesTotal_eq (h : ∀ u, (s.frame u).recv = some r → u = t) :
    s.closesTotal r = closesWith (decide (s.next ≤ r)) (s.recv r) (s.frame t) r := by
  have hiff : (∃ u, (s.frame u).owes r = true) ↔ (s.frame t).owes r = true := by
    constructor
    · rintro ⟨u, hu⟩
      exact h u (Frame.recv_of_owes hu) ▸ hu
    · exact fun ht => ⟨t, ht⟩
  simp [closesTotal, closesDue, closesWith, owed, hiff]

/-- Receivers are numbered as they are constructed. -/
theorem Step.next_eq (h : Step s l s') : s'.next = s.next ∨
    ∃ t, l.thread = some t ∧ (s'.frame t).recv = some s.next ∧ s'.next = s.next + 1 := by
  cases h
  case construct t o e hf => exact Or.inr ⟨t, rfl, by simp, rfl⟩
  all_goals exact Or.inl rfl

/-- The step is taken by an operation that works on the receiver `r`. -/
theorem Step.closesTotal_of_thread (h : Step s l s') (hs : Life s) (hb : Born s) (ho : Owned s)
    (hs' : Life s') (ho' : Owned s') (hc : CloseReturns s l) (hl : l.thread = some t)
    (ht : (s.frame t).recv = some r ∨ (s'.frame t).recv = some r) [Decidable (ClosesAgain r s l)] :
    s'.closesTotal r = s.closesTotal r + if ClosesAgain r s l then 1 else 0 := by
  have hfresh := hs.fresh
  obtain ⟨huniq, huniq'⟩ := ho.only_of_step hs ho' hs' h hl ht
  rw [State.closesTotal_eq huniq, State.closesTotal_eq huniq']
  have hlt := hs.frame_lt t r
  have hreg := hs.reg_lt
  have hact := hb.start_active t
  have hclear := ho.clear_active t
  have hpc : ∀ pc o e q, s.frame t = .start pc o e q → (s.recv q).pc = .unborn :=
    fun pc o e q hf => (hb.wf q).unborn_iff.2 (hb.start_thread t pc o e q hf)
  have hclose : l = .exec t .throw → (∀ o e q, s.frame t ≠ .start .handler o e q) ∧
      (∀ k q, s.frame t ≠ .stop .close k q) ∧ ∀ k q, s.frame t ≠ .dtor .close k q := by
    refine fun hlt => ⟨fun o e q hf => ?_, fun k q hf => ?_, fun k q hf => ?_⟩ <;>
      exact hc.1 t q hlt (by simp [hf])
  have hidle := @State.idle_of_ready s t
  clear huniq huniq' hs hb ho hs' ho'
  cases h <;> cases hl
  all_goals
    simp only [State.goto_frame, State.goto_recv, State.goto_next, State.setRecv_recv,
      State.setRecv_frame, State.setRecv_next, State.setReg_recv, State.setReg_frame,
      State.setReg_next, if_true, closesWith, ClosesAgain] at ht ⊢
  all_goals grind -ring -linarith [Frame.owes, Frame.recv, Frame.clears, Receiver.closeConnection,
    StopCaller.not_owes, DtorCaller.not_owes, StopCaller.recv_frame, DtorCaller.recv_frame]

/-- No operation that works on the receiver `r` takes the step. -/
theorem Step.closesTotal_of_alone (h : Step s l s')
    (hl : ∀ t, l.thread = some t → (s.frame t).recv ≠ some r ∧ (s'.frame t).recv ≠ some r)
    (hc : CloseReturns s l) [Decidable (ClosesAgain r s l)] :
    s'.closesTotal r = s.closesTotal r + if ClosesAgain r s l then 1 else 0 := by
  have howed : s'.owed r = s.owed r := by
    refine State.owed_congr fun u => ?_
    by_cases hu : l.thread = some u
    · rw [eq_false_of_ne_true fun h => (hl u hu).1 (Frame.recv_of_owes h),
        eq_false_of_ne_true fun h => (hl u hu).2 (Frame.recv_of_owes h)]
    · rw [h.frame_of_ne hu]
  have hnext : s'.next ≤ r ↔ s.next ≤ r := by
    rcases h.next_eq with heq | ⟨t, ht, hrecv, heq⟩
    · rw [heq]
    · have hne : s.next ≠ r := fun hr => (hl t ht).2 (hr ▸ hrecv)
      rw [heq]
      exact ⟨fun h => Nat.le_of_succ_le h, fun h => Nat.lt_of_le_of_ne h hne⟩
  have hthrow : ¬ ∃ t o e, l = .exec t .throw ∧ s.frame t = .start .createThread o e r := by
    rintro ⟨t, o, e, rfl, hf⟩
    exact (hl t rfl).1 (by rw [hf]; rfl)
  unfold State.closesTotal State.closesDue
  simp only [howed, hnext, ClosesAgain, hthrow, false_or]
  by_cases hlw : ∃ a, l = .work r a
  · obtain ⟨a, rfl⟩ := hlw
    have hclose : a ≠ .closeThrow := fun ha => hc.2 r (by rw [ha])
    cases h with
    | @work _ _ _ _ R _ _ hw =>
      rw [show State.recv _ r = R from by simp]
      cases hw <;> simp_all [Receiver.closeConnection, Receiver.sessionAcknowledge]
      all_goals omega
  · have hno : l ≠ .work r .isOpen := fun hl => hlw ⟨_, hl⟩
    rcases h.recv_of_alone fun u hu hlu => (hl u hlu).1 hu with hsame | hlost | ⟨a, rfl, -⟩
    · simp [hsame, hno]
    · simp [hlost, hno]
    · exact absurd ⟨a, rfl⟩ hlw

open Classical in
/-- **Every close is due once**, but for the steps that make one more due. -/
theorem Step.closesTotal (h : Step s l s') (hs : Life s) (hb : Born s) (ho : Owned s)
    (hrf : RaceFree s l) (hc : CloseReturns s l) :
    s'.closesTotal r = s.closesTotal r + if ClosesAgain r s l then 1 else 0 := by
  by_cases hl : ∃ t, l.thread = some t ∧ ((s.frame t).recv = some r ∨ (s'.frame t).recv = some r)
  · obtain ⟨t, hl, ht⟩ := hl
    exact h.closesTotal_of_thread hs hb ho (hs.step h) (ho.step hs hrf h) hc hl ht
  · push Not at hl
    exact h.closesTotal_of_alone hl hc

/-- Nobody works on a destroyed receiver, and its worker does not run. -/
structure Buried (s : State) (r : RecvId) : Prop where
  not_recv : ∀ t, (s.frame t).recv ≠ some r
  not_registered : ∀ o e, ¬ s.Registered o e r
  inactive : (s.recv r).mReceivingActive = false
  ended : (s.recv r).pc = .unborn ∨ (s.recv r).pc = .exited

theorem Buried.closesDue (hr : Buried s r) (hd : (s.recv r).destroyed = true) (hs : Life s) :
    s.closesDue r = 0 := by
  have hnext : ¬ s.next ≤ r := by
    intro hle
    rw [hs.fresh r hle] at hd
    cases hd
  have howed : s.owed r = 0 := if_neg fun ⟨t, ht⟩ => hr.not_recv t (Frame.recv_of_owes ht)
  have hpc : (s.recv r).pc ≠ .handlerClose := by
    rcases hr.ended with h | h <;> simp [h]
  simp [State.closesDue, hnext, howed, hpc, hr.inactive]

/-- A receiver that nobody works on stays so. -/
theorem Buried.step (hr : Buried s r) (hd : (s.recv r).destroyed = true) (hs : Life s)
    (h : Step s l s') : Buried s' r := by
  have halone : ∀ u, (s.frame u).recv = some r → l.thread ≠ some u :=
    fun u hu => absurd hu (hr.not_recv u)
  refine ⟨fun t ht => ?_, fun o e hreg => ?_, ?_, ?_⟩
  · rcases h.recv_of_frame ht with hold | ⟨-, rfl, -⟩ | ⟨-, -, o, e, hreg⟩
    · exact hr.not_recv t hold
    · rw [hs.fresh _ le_rfl] at hd
      cases hd
    · exact hr.not_registered o e hreg
  · rcases h.registered_of hreg with hold | ⟨t, ht, -⟩
    · exact hr.not_registered o e hold
    · exact hr.not_recv t (by rw [ht]; rfl)
  · rw [(h.flags_of_alone halone).1]
    exact hr.inactive
  · rcases h.recv_of_alone halone with hsame | hlost | ⟨a, -, hw⟩
    · rw [hsame]
      exact hr.ended
    · rw [hlost]
      exact hr.ended
    · rcases hr.ended with hpc | hpc
      · exact absurd hpc hw.pc_ne.1
      · exact absurd hpc hw.pc_ne.2.2

/-- The operation that executes `~QPIDReceiver` to its end buries the receiver. -/
theorem Step.buried_of_frame (h : Step s l s') (hs : Life s) (ho : Owned s) (hb : Born s)
    {pc : DtorPc} {k : DtorCaller} (hl : l.thread = some t) (ht : s.frame t = .dtor pc k r)
    (ht' : s'.frame t = k.frame) (hpc : pc.pastFlag = true)
    (hflag : (s'.recv r).mReceivingActive = (s.recv r).mReceivingActive)
    (hended : (s'.recv r).pc = .unborn ∨ (s'.recv r).pc = .exited) : Buried s' r where
  not_recv u hu := by
    have hut : u = t := by
      by_contra hne
      rw [h.frame_of_ne fun hlu => hne (Option.some.inj (hlu.symm.trans hl))] at hu
      exact hne (ho.recv_unique hs (by rw [ht]; rfl) hu)
    rw [hut, ht'] at hu
    simp at hu
  not_registered o e hreg := by
    rcases h.registered_of hreg with hold | ⟨u, hu, -⟩
    · exact hs.holds_unreg t o e r (by simp [ht]) hold
    · obtain rfl := ho.recv_unique hs (t := t) (u := u) (r := r) (by rw [ht]; rfl) (by rw [hu]; rfl)
      rw [ht] at hu
      cases hu
  inactive := hflag.trans (hb.dtor_inactive t pc k r ht hpc)
  ended := hended

/-- A receiver is buried by the step that destroys it. -/
theorem Step.buried (h : Step s l s') (hs : Life s) (hb : Born s) (ho : Owned s)
    (hd : (s.recv r).destroyed = false) (hd' : (s'.recv r).destroyed = true) : Buried s' r := by
  have hm := h.recv_move r
  generalize hR : s'.recv r = R at hm
  cases hm with
  | destroyed hf hf' hj =>
    refine h.buried_of_frame hs ho hb rfl hf hf' rfl (by rw [hR]) ?_
    rw [hR]
    cases hthread : (s.recv r).thread with
    | none => exact Or.inl ((hb.wf r).unborn_iff.2 hthread)
    | joinable => exact absurd hthread hj
    | joined => exact Or.inr ((hb.wf r).exited_of_joined hthread)
  | joinDestroyed hf hf' _ hx =>
    exact h.buried_of_frame hs ho hb rfl hf hf' rfl (by rw [hR]) (by rw [hR]; exact Or.inr hx)
  | work hw => simp [hR, hw.keeps.2.2.2, hd] at hd'
  | same | lost | opened | named | activated | spawned | deactivated | closed | closeThrew
  | joined => simp_all [Receiver.closeConnection, Receiver.closeConnectionThrow]

end Step

/-- The steps of an application that satisfies `RaceFree`, with a `closeConnection` that does not
throw. -/
def RaceFreeCloses (s : State) (l : Label) : Prop := RaceFree s l ∧ CloseReturns s l

/-- The invariants that counting the closes relies on. -/
structure Accounted (s : State) : Prop where
  life : Life s
  born : Born s
  owned : Owned s
  buried : ∀ r, (s.recv r).destroyed = true → Buried s r

namespace Accounted

variable {s s' : State} {l : Label}

theorem init : Accounted State.init where
  life := Life.init
  born := Born.init
  owned := Owned.init
  buried _ h := by cases h

theorem step (ha : Accounted s) (hd : RaceFreeCloses s l) (h : Step s l s') : Accounted s' where
  life := ha.life.step h
  born := ha.born.step ha.life h
  owned := ha.owned.step ha.life hd.1 h
  buried r hr := by
    by_cases hold : (s.recv r).destroyed = true
    · exact (ha.buried r hold).step hold ha.life h
    · exact h.buried ha.life ha.born ha.owned (eq_false_of_ne_true hold) hr

end Accounted

theorem closesTotal_init (r : RecvId) : State.init.closesTotal r = 1 := by
  have howed : State.init.owed r = 0 := if_neg fun ⟨t, ht⟩ => by cases ht
  rw [State.closesTotal, State.closesDue, howed]
  simp [State.init]

/-- **Closed exactly once.**  In a run in which no operation on an exchange begins while another
thread stops it (`RaceFree`) and in which `closeConnection` does not throw, the connection of a
destroyed receiver was closed at least once; and it was closed exactly once if and only if the
creation of its thread did not fail and its worker did not find the connection open in the catch
block. -/
theorem closes_eq_one_iff {s : State} {ls : List Label} (hrun : qpid.run State.init ls = some s)
    (hls : qpid.AllSteps RaceFreeCloses State.init ls) {r : RecvId}
    (hd : (s.recv r).destroyed = true) :
    1 ≤ (s.recv r).closes ∧
      ((s.recv r).closes = 1 ↔ qpid.AllSteps (fun s l => ¬ ClosesAgain r s l) State.init ls) := by
  classical
  have hstep : ∀ s l s', Accounted s → RaceFreeCloses s l → qpid.step s l = some s' →
      s'.closesTotal r = s.closesTotal r + if ClosesAgain r s l then 1 else 0 :=
    fun s l s' ha hd hst => (step_cases hst).2.closesTotal ha.life ha.born ha.owned hd.1 hd.2
  have hacc : Accounted s := by
    have hreach := Conc.Machine.reachableWhere_of_run hrun hls
    exact hreach.invariant Accounted.init fun _ _ _ ha hd hst => ha.step hd (step_cases hst).2
  have htotal : s.closesTotal r = (s.recv r).closes := by
    rw [State.closesTotal, (hacc.buried r hd).closesDue hd hacc.life, Nat.add_zero]
  have key := Conc.Machine.measure_eq_iff (I := Accounted) (D := RaceFreeCloses)
    (C := fun s l => ¬ ClosesAgain r s l) (μ := fun s => s.closesTotal r)
    (fun s l s' ha hd hst => ha.step hd (step_cases hst).2)
    (fun s l s' ha hd hc hst => by rw [hstep s l s' ha hd hst, if_neg hc, Nat.add_zero])
    (fun s l s' ha hd hc hst => by
      rw [hstep s l s' ha hd hst, if_pos (not_not.1 hc)]
      exact Nat.lt_succ_self _)
    Accounted.init hrun hls
  simpa only [htotal, closesTotal_init] using key

/-- A call of the connector that throws. -/
def Label.throws : Label → Bool
  | .exec _ .throw | .work _ .closeThrow => true
  | _ => false

theorem closeReturns_of_label {s : State} {l : Label} (h : l.throws = false) :
    CloseReturns s l := by
  refine ⟨fun t r hl => ?_, fun r hl => ?_⟩ <;> rw [hl] at h <;> cases h

/-- A run of one application thread in which no call of an operation throws. -/
theorem raceFreeCloses_of_run {s : State} {ls : List Label}
    (h : qpid.run State.init ls = some s) (happ : ∀ l ∈ ls, ∀ s, AppOnly s l)
    (hthrow : ∀ l ∈ ls, l.throws = false) :
    ∃ ls', qpid.run State.init ls' = some s ∧ qpid.AllSteps RaceFreeCloses State.init ls' :=
  (raceFree_and_of_run h happ fun l hl _ => closeReturns_of_label (hthrow l hl)).exists_run

/-- The connection of a receiver that is started and stopped is closed once. -/
theorem closes_eq_one_of_stop : ∃ ls s, qpid.run State.init ls = some s ∧
    (s.recv 0).destroyed = true ∧ (s.recv 0).closes = 1 ∧
    qpid.AllSteps (fun s l => ¬ ClosesAgain 0 s l) State.init ls := by
  have hrun : ∃ s, qpid.run State.init (startLabels 0 "exchange" ++
      .work 0 .test :: .work 0 .fetchThrow :: .call (.app 0) (.qpidReceiveStop 0 "exchange") ::
        (List.replicate 4 (.exec (.app 0) .ok) ++ .work 0 .isOpen ::
          List.replicate 5 (.exec (.app 0) .ok))) = some s ∧
      (s.recv 0).destroyed = true ∧ (s.recv 0).closes = 1 := ⟨_, rfl, rfl, rfl⟩
  obtain ⟨s, hs, hd, hone⟩ := hrun
  obtain ⟨ls, hls, hall⟩ := raceFreeCloses_of_run hs
    (by simp [startLabels, AppOnly, Operation.object]) (by decide)
  exact ⟨ls, s, hls, hd, hone, (closes_eq_one_iff hls hall hd).2.1 hone⟩

/-- The connection of a worker that fails while it is open is closed by the worker, and again by
the stop that follows. -/
theorem closes_twice : ¬ ∀ ls s, qpid.run State.init ls = some s →
    qpid.AllSteps RaceFreeCloses State.init ls →
    ∀ r, (s.recv r).destroyed = true → (s.recv r).closes = 1 := by
  intro h
  have hrun : ∃ s, qpid.run State.init (startLabels 0 "exchange" ++
      .work 0 .test :: .work 0 .fetchThrow :: .work 0 .isOpen :: .work 0 .close ::
        .call (.app 0) (.qpidReceiveStop 0 "exchange") ::
          List.replicate 9 (.exec (.app 0) .ok)) = some s ∧
      (s.recv 0).destroyed = true ∧ (s.recv 0).closes = 2 := ⟨_, rfl, rfl, rfl⟩
  obtain ⟨s, hs, hd, htwo⟩ := hrun
  obtain ⟨ls, hls, hall⟩ := raceFreeCloses_of_run hs
    (by simp [startLabels, AppOnly, Operation.object]) (by decide)
  have hone := h ls s hls hall 0 hd
  rw [htwo] at hone
  cases hone

end Comyno
