import Comyno.Qpid.Ownership

/-!
# When the registry tells the truth

`qpidReceiveMessages` answers `QPID_ALREADY` when the exchange is in `activeReceivers`.  The
registry is written by the operations only: a worker that leaves its loop through the catch block
leaves its entry behind, and the exchange cannot be started again until it is stopped.

## Main results

* `registry_stale` : a run in which `qpidReceiveMessages` returns `QPID_ALREADY` although the
  worker of the exchange has ended.
* `always_truthful_iff` : in a race-free run every receiver presented as running has a worker in
  its loop exactly when workers fail only while they are being stopped.
* `registry_truthful` : in runs in which workers fail only while they are being stopped, every
  registered exchange has a worker in its loop, and `QPID_ALREADY` is only returned for such an
  exchange.
-/

namespace Comyno

/-- The step is an exception of `receiverFetch`, of `sessionAcknowledge` or of the callback. -/
def WorkerAct.fails : WorkerAct → Bool
  | .fetchThrow | .callbackThrow | .acknowledgeThrow _ => true
  | _ => false

/-- The library presents `r` as running: it is registered and nobody is stopping it, or it is
about to be registered. -/
def State.Exposed (s : State) (r : RecvId) : Prop :=
  (∃ t o e, s.frame t = .emplace o e r) ∨
    ∃ o e, s.Registered o e r ∧ ∀ t, ¬ (s.frame t).stops o e

/-- Workers fail only when their receiver is not presented as running. -/
def FailsUnexposed (s : State) (l : Label) : Prop :=
  ∀ r a, l = .work r a → a.fails = true → ¬ s.Exposed r

/-- The worker of every receiver presented as running is in its loop. -/
def Truthful (s : State) : Prop :=
  ∀ r, s.Exposed r → (s.recv r).mReceivingActive = true ∧ (s.recv r).pc.inLoop = true

section Step

variable {s s' : State} {l : Label}

/-- A receiver is presented as running after a step if it was before, or if the step has just
created its thread. -/
theorem Step.exposed_of (h : Step s l s') {r : RecvId} (hr : s'.Exposed r) :
    s.Exposed r ∨ ∃ t o e, s.frame t = .start .createThread o e r ∧
      s'.recv r = { s.recv r with thread := .joinable, pc := .test } := by
  rcases hr with ⟨t, o, e, ht⟩ | ⟨o, e, hreg, hno⟩
  · by_cases hl : l.thread = some t
    · cases h
      case createThread u p f q hf =>
        cases hl
        obtain ⟨rfl, rfl, rfl⟩ : p = o ∧ f = e ∧ q = r := by simpa using ht
        exact Or.inr ⟨_, _, _, hf, by simp⟩
      all_goals simp_all [Label.thread]
    · rw [h.frame_of_ne hl] at ht
      exact Or.inl (Or.inl ⟨t, o, e, ht⟩)
  · refine Or.inl ?_
    rcases h.registered_of hreg with hold | ⟨t, ht, -⟩
    · refine Or.inr ⟨o, e, hold, fun t ht => ?_⟩
      rcases h.stops_cases ht with ht' | hnone
      · exact hno t ht'
      · rw [State.Registered, hnone] at hreg
        cases hreg
    · exact Or.inl ⟨t, o, e, ht⟩

end Step

section Truthful

variable {s s' : State} {l : Label}

/-- The only operation that works on a receiver presented as running is its `emplace`. -/
theorem State.Exposed.emplace {r : RecvId} (hr : s.Exposed r) (hs : Life s) (ho : Owned s)
    {t : Thread} (ht : (s.frame t).recv = some r) : ∃ o e, s.frame t = .emplace o e r := by
  rcases hr with ⟨u, o, e, hu⟩ | ⟨o, e, hreg, hno⟩
  · obtain rfl := hs.builds_unique u t r (by simp [hu]) ht
    exact ⟨o, e, hu⟩
  · cases hf : s.frame t with
    | stop pc k q =>
      obtain rfl : q = r := by simpa [hf] using ht
      obtain ⟨p, f, hk, hq⟩ := ho.stop_reg t pc k q hf
      obtain ⟨rfl, rfl⟩ := hs.reg_inj o e p f q hreg hq
      exact absurd (by simpa [hf] using hk) (hno t)
    | start | emplace | dtor =>
      exact absurd hreg (hs.holds_unreg t o e r (by simp_all))
    | _ => simp [hf] at ht

/-- A worker in its loop stays there while its flag is set and nothing fails. -/
theorem WorkStep.inLoop {R R' : Receiver} {a : WorkerAct} (h : WorkStep R a R')
    (hflag : R.mReceivingActive = true) (hpc : R.pc.inLoop = true) (ha : a.fails = false) :
    R'.pc.inLoop = true := by
  cases h <;> simp_all [WorkerPc.inLoop, WorkerAct.fails]

theorem Truthful.step (ht : Truthful s) (hs : Life s) (hb : Born s) (ho : Owned s)
    (hc : FailsUnexposed s l) (h : Step s l s') : Truthful s' := by
  intro r hr
  rcases h.exposed_of hr with hold | ⟨t, o, e, hf, hrecv⟩
  · obtain ⟨hflag, hpc⟩ := ht r hold
    by_cases hu : ∃ u, (s.frame u).recv = some r ∧ l.thread = some u
    · -- `emplace` does not touch the receiver
      obtain ⟨u, hu, hl⟩ := hu
      obtain ⟨o, e, hf⟩ := hold.emplace hs ho hu
      have hsame : s'.recv r = s.recv r := by
        cases h <;> simp_all [Label.thread]
      rw [hsame]
      exact ⟨hflag, hpc⟩
    · push Not at hu
      rcases h.recv_of_alone hu with hsame | hlost | ⟨a, hl, hw⟩
      · rw [hsame]
        exact ⟨hflag, hpc⟩
      · rw [hlost]
        exact ⟨hflag, hpc⟩
      · have ha : a.fails = false := eq_false_of_ne_true fun ha => hc r a hl ha hold
        exact ⟨hw.keeps.2.1.trans hflag, hw.inLoop hflag hpc ha⟩
  · rw [hrecv]
    exact ⟨(hb.start_active t _ o e r hf (by simp)).2 rfl, rfl⟩

/-- A worker that fails while its receiver is presented as running makes the library lie. -/
theorem Truthful.not_step (hc : ¬ FailsUnexposed s l) (h : Step s l s') : ¬ Truthful s' := by
  unfold FailsUnexposed at hc
  push Not at hc
  obtain ⟨r, a, rfl, ha, hr⟩ := hc
  intro ht
  cases h with
  | @work _ _ last m R hf hm hw =>
    have hpc : R.pc.inLoop = true := by simpa using (ht r hr).2
    cases hw <;> simp_all [WorkerAct.fails, WorkerPc.inLoop]

theorem Truthful.init : Truthful State.init := by
  rintro r (⟨t, o, e, ht⟩ | ⟨o, e, hr, -⟩)
  · cases ht
  · cases hr

end Truthful

/-- The steps of a race-free application whose workers fail only while they are stopped. -/
def StopsFirst (s : State) (l : Label) : Prop := RaceFree s l ∧ FailsUnexposed s l

section Reachable

variable {s : State}

theorem truthful_of_reachable (h : qpid.ReachableWhere StopsFirst State.init s) : Truthful s := by
  refine h.invariant_of (I := fun s => (Life s ∧ Born s) ∧ Owned s) (fun s hr => ?_)
    Truthful.init fun s l s' hi ht hc hst => ?_
  · exact ⟨life_and_born_of_reachable hr, owned_of_reachable (fun _ _ hc => hc.1) hr⟩
  · exact ht.step hi.1.1 hi.1.2 hi.2 hc.2 (step_cases hst).2

/-- **The library is truthful throughout a race-free run exactly when workers fail only while their
receiver is not presented as running.** -/
theorem always_truthful_iff {ls : List Label} (hls : qpid.AllSteps RaceFree State.init ls) :
    qpid.Always Truthful State.init ls ↔ qpid.AllSteps FailsUnexposed State.init ls := by
  refine Conc.Machine.always_iff_allSteps (J := fun s => (Life s ∧ Born s) ∧ Owned s)
    (D := RaceFree) ?_ ?_ ?_ ⟨⟨Life.init, Born.init⟩, Owned.init⟩ Truthful.init hls
  · intro s l s' ⟨⟨hs, hb⟩, ho⟩ hrf hst
    have h := (step_cases hst).2
    exact ⟨⟨hs.step h, hb.step hs h⟩, ho.step hs hrf h⟩
  · exact fun s l s' hi ht _ hc hst => ht.step hi.1.1 hi.1.2 hi.2 hc (step_cases hst).2
  · exact fun s l s' _ _ _ hc hst => Truthful.not_step hc (step_cases hst).2

/-- **The registry is truthful while workers fail only when they are being stopped**: a registered
exchange that nobody is stopping has a worker in its loop, and `qpidReceiveMessages` returns
`QPID_ALREADY` only for such an exchange. -/
theorem registry_truthful (h : qpid.ReachableWhere StopsFirst State.init s) :
    (∀ o e r, s.Registered o e r → (∀ t, ¬ (s.frame t).stops o e) →
      (s.recv r).pc.inLoop = true) ∧
    ∀ t o e callback s', RaceFree s (.call t (.qpidReceiveMessages o e callback)) →
      qpid.step s (.call t (.qpidReceiveMessages o e callback)) = some s' →
      s'.frame t = .idle (some (.status .qpidAlready)) →
      ∃ r, s.Registered o e r ∧ (s.recv r).pc.inLoop = true := by
  have ht := truthful_of_reachable h
  have hreg : ∀ o e r, s.Registered o e r → (∀ t, ¬ (s.frame t).stops o e) →
      (s.recv r).pc.inLoop = true := fun o e r hr hno => (ht r (Or.inr ⟨o, e, hr, hno⟩)).2
  refine ⟨hreg, fun t o e callback s' hrf hst hret => ?_⟩
  have hstep := (step_cases hst).2
  generalize hl : Label.call t (.qpidReceiveMessages o e callback) = l at hstep
  cases hstep <;> cases hl
  case callEmpty => simp at hret
  case callConstruct => simp at hret
  case callAlready r hready hr =>
    obtain ⟨last, hidle⟩ := State.idle_of_ready hready
    refine ⟨r, hr, hreg o e r hr fun u hu => ?_⟩
    obtain rfl := hrf o e u ⟨rfl, rfl⟩ hu
    simp [hidle] at hu

end Reachable

/-- The first start of an exchange, and the answer to the second. -/
theorem registry_truthful_restart : ∃ s s',
    qpid.run State.init (startLabels 0 "exchange" ++ [.work 0 .test]) = some s ∧
    qpid.step s (.call (.app 0) (.qpidReceiveMessages 0 "exchange" true)) = some s' ∧
    s'.frame (.app 0) = .idle (some (.status .qpidAlready)) ∧
    ∃ r, s.Registered 0 "exchange" r ∧ (s.recv r).pc.inLoop = true := by
  have hrun : ∃ s s', qpid.run State.init (startLabels 0 "exchange" ++ [.work 0 .test]) = some s ∧
      qpid.step s (.call (.app 0) (.qpidReceiveMessages 0 "exchange" true)) = some s' ∧
      s'.frame (.app 0) = .idle (some (.status .qpidAlready)) := ⟨_, _, rfl, rfl, rfl⟩
  obtain ⟨s, s', hs, hst, hret⟩ := hrun
  have hreach : qpid.ReachableWhere StopsFirst State.init s := by
    refine raceFree_and_of_run hs (by simp [startLabels, AppOnly, Operation.object]) ?_
    intro l hl s r a hla ha
    subst hla
    simp only [startLabels, List.cons_append, List.mem_cons, List.mem_append,
      List.mem_replicate] at hl
    simp_all [WorkerAct.fails]
  have hrf : RaceFree s (.call (.app 0) (.qpidReceiveMessages 0 "exchange" true)) :=
    raceFree_call_of_run _ hs (by decide)
  exact ⟨s, s', hs, hst, hret, (registry_truthful hreach).2 _ _ _ _ _ hrf hst hret⟩

/-- A worker that dies leaves the registry untruthful. -/
theorem registry_stale :
    ¬ ∀ s s' t o e, qpid.ReachableWhere AppOnly State.init s →
      qpid.step s (.call t (.qpidReceiveMessages o e true)) = some s' →
      s'.frame t = .idle (some (.status .qpidAlready)) →
      ∃ r, s.Registered o e r ∧ (s.recv r).pc.inLoop = true := by
  intro h
  have hrun : ∃ s s', qpid.run State.init (startLabels 0 "exchange" ++
      [.work 0 .test, .work 0 .fetchThrow, .work 0 .isOpen, .work 0 .close]) = some s ∧
      s.Registered 0 "exchange" 0 ∧ (s.recv 0).pc = .exited ∧
      qpid.step s (.call (.app 0) (.qpidReceiveMessages 0 "exchange" true)) = some s' ∧
      s'.frame (.app 0) = .idle (some (.status .qpidAlready)) :=
    ⟨_, _, rfl, rfl, rfl, rfl, rfl⟩
  obtain ⟨s, s', hs, hr, hpc, hst, hret⟩ := hrun
  have hreach : qpid.ReachableWhere AppOnly State.init s := by
    refine Conc.Machine.reachableWhere_of_run hs (Conc.Machine.allSteps_of_labels ?_)
    simp [startLabels, AppOnly, Operation.object]
  obtain ⟨q, hq, hloop⟩ := h s s' _ _ _ hreach hst hret
  cases hr.symm.trans hq
  simp [hpc, WorkerPc.inLoop] at hloop

end Comyno
