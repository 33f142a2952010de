import Comyno.Qpid.Ownership

/-!
# No callback after a stop

When `qpidReceiveStop` or `~QPIDMessaging` returns, the workers of the receivers it was called
for have ended.  `receiveStop` joins the worker on the normal path; where it does not (the flag was
cleared before, or `closeConnection` threw) the entry is erased all the same, and `~QPIDReceiver`
joins it.

`Retiring t r` follows a receiver `r` through the operation of `t`: first it is registered under
an exchange that `t` is stopping, then it is in `~QPIDReceiver`, and in the end it is gone.

## Main results

* `Retiring.step` : no step of any thread takes the receiver off this way.
* `quiescent_after_stop` : once the operation has returned, the receiver is destroyed, its worker
  has been joined and takes no further step.
-/

namespace Comyno

/-- The receiver is destroyed and its worker was joined. -/
structure Receiver.Gone (R : Receiver) : Prop where
  exited : R.pc = .exited
  joined : R.thread = .joined
  destroyed : R.destroyed = true

/-- The operation of `t` is disposing of the receiver `r`, or `r` is gone. -/
inductive Retiring (t : Thread) (r : RecvId) (s : State) : Prop
  | registered {o : ObjId} {e : String} : (s.frame t).stops o e → s.Registered o e r →
      Retiring t r s
  | dtor {pc : DtorPc} {k : DtorCaller} : s.frame t = .dtor pc k r →
      (s.recv r).thread ≠ .none → Retiring t r s
  | gone : (s.recv r).Gone → Retiring t r s

section Step

variable {s s' : State} {l : Label} {t : Thread} {r : RecvId}

/-- A receiver that is gone stays gone. -/
theorem Step.gone (h : Step s l s') (hb : Born s) (hr : (s.recv r).Gone) : (s'.recv r).Gone := by
  obtain ⟨hx, hj, hd⟩ := hr
  have hm := h.recv_move r
  generalize s'.recv r = R at hm
  cases hm with
  | work hw => exact absurd hx hw.pc_ne.2.2
  | spawned hf =>
    rw [hb.start_thread _ _ _ _ _ hf] at hj
    cases hj
  | joinDestroyed => exact ⟨hx, rfl, rfl⟩
  | joined => exact ⟨hx, rfl, hd⟩
  | destroyed => exact ⟨hx, hj, rfl⟩
  | same | lost | opened | named | activated | deactivated | closed | closeThrew =>
    exact ⟨hx, hj, hd⟩

/-- `~QPIDReceiver` goes on, or it has ended and the receiver is gone. -/
theorem Step.dtor_cases (h : Step s l s') (hb : Born s) {pc : DtorPc} {k : DtorCaller}
    (ht : s.frame t = .dtor pc k r) (hthread : (s.recv r).thread ≠ .none) :
    (∃ pc', s'.frame t = .dtor pc' k r) ∨ (s'.recv r).Gone := by
  by_cases hl : l.thread = some t
  · have hidle := @State.idle_of_ready s t
    cases h
    case dtorNotJoinable u k' q hf hj =>
      cases hl
      cases ht.symm.trans hf
      have hjoined : (s.recv r).thread = .joined := by
        cases hc : (s.recv r).thread <;> simp_all
      have hx := (hb.wf r).exited_of_joined hjoined
      exact Or.inr ⟨by simpa using hx, by simpa using hjoined, by simp⟩
    case dtorJoin u k' q hf hne hj hx =>
      cases hl
      cases ht.symm.trans hf
      exact Or.inr ⟨by simpa using hx, by simp, by simp⟩
    all_goals simp_all [Label.thread]
  · rw [h.frame_of_ne hl]
    exact Or.inl ⟨pc, ht⟩

theorem Retiring.step (hr : Retiring t r s) (hb : Born s) (ho : Owned s) (h : Step s l s') :
    Retiring t r s' := by
  cases hr with
  | registered ht hreg =>
    rcases ho.registered_step h ht hreg with hreg' | ⟨k, hk⟩
    · rcases h.stops_cases ht with ht' | hnone
      · exact .registered ht' hreg'
      · rw [State.Registered, hnone] at hreg'
        cases hreg'
    · exact .dtor hk (h.thread_ne_none (hb.reg_thread _ _ r hreg))
  | dtor ht hthread =>
    rcases h.dtor_cases hb ht hthread with ⟨pc', ht'⟩ | hgone
    · exact .dtor ht' (h.thread_ne_none hthread)
    · exact .gone hgone
  | gone hgone => exact .gone (h.gone hb hgone)

/-- A thread that executes no operation has disposed of the receiver. -/
theorem Retiring.gone_of_idle (hr : Retiring t r s) {last : Option Result}
    (ht : s.frame t = .idle last) : (s.recv r).Gone := by
  cases hr with
  | registered ht' => simp [ht] at ht'
  | dtor ht' =>
    rw [ht] at ht'
    cases ht'
  | gone hgone => exact hgone

/-- The call of an operation that stops a registered exchange. -/
theorem Step.retiring {c : Operation} (h : Step s (.call t c) s') {o : ObjId} {e : String}
    (hc : c.stops o e) (hreg : s.Registered o e r) : Retiring t r s' := by
  generalize hl : Label.call t c = l at h
  cases h <;> cases hl
  case callEmpty | callAlready | callConstruct => exact hc.elim
  case callInvalid p f hnone hready =>
    obtain ⟨rfl, rfl⟩ := hc
    rw [State.Registered, hnone] at hreg
    cases hreg
  case callIndex p f q hready hq =>
    obtain ⟨rfl, rfl⟩ := hc
    exact .registered (o := p) (e := f) (by simp) hreg
  case callDestructor p hready =>
    obtain rfl : p = o := hc
    exact .registered (o := p) (e := e) (by simp) hreg

/-- The worker of a receiver that is gone takes no step. -/
theorem Receiver.Gone.step_eq_none (hr : (s.recv r).Gone) (a : WorkerAct) :
    qpid.step s (.work r a) = none := by
  refine Option.eq_none_iff_forall_ne_some.2 fun s' hst => ?_
  cases (step_cases hst).2 with
  | work _ _ hw => exact hw.pc_ne.2.2 hr.exited

end Step

/-- **Quiescence after a stop.**  Once an operation that stops a registered exchange has returned,
with whatever result, the receiver of the exchange is destroyed, its worker has been joined, and
in no later state does the worker take a step. -/
theorem quiescent_after_stop {s₀ s₁ s₂ s₃ : State} {t : Thread} {c : Operation} {o : ObjId}
    {e : String} {r : RecvId} {last : Option Result}
    (h₀ : qpid.ReachableWhere RaceFree State.init s₀) (hrf : RaceFree s₀ (.call t c))
    (hcall : qpid.step s₀ (.call t c) = some s₁) (hc : c.stops o e)
    (hreg : s₀.Registered o e r) (h₁ : qpid.ReachableWhere RaceFree s₁ s₂)
    (hret : s₂.frame t = .idle last) (h₂ : qpid.Reachable s₂ s₃) :
    (s₃.recv r).Gone ∧ ∀ a, qpid.step s₃ (.work r a) = none := by
  have hs₁ := h₀.tail hrf hcall
  have hretire : Retiring t r s₂ := h₁.invariant_of (J := Retiring t r)
    (fun s hs => And.intro (born_of_reachable (hs₁.trans hs))
      (owned_of_reachable (fun _ _ hc => hc) (hs₁.trans hs)))
    ((step_cases hcall).2.retiring hc hreg) fun _ _ _ hi hr _ hst =>
      hr.step hi.1 hi.2 (step_cases hst).2
  -- from the return on, any step may follow
  have hs₂ : qpid.Reachable State.init s₂ := (hs₁.trans h₁).mono fun _ _ _ => trivial
  have hgone : (s₃.recv r).Gone := h₂.invariant_of (J := fun s => (s.recv r).Gone)
    (fun s hs => born_of_reachable (hs₂.trans hs)) (hretire.gone_of_idle hret)
    fun _ _ _ hb hr _ hst => (step_cases hst).2.gone hb hr
  exact ⟨hgone, hgone.step_eq_none⟩

/-- A stop whose `closeConnection` throws returns only after the worker has ended. -/
theorem quiescent_after_failed_close : ∃ s₀ s₁ s₂,
    qpid.run State.init (startLabels 0 "exchange") = some s₀ ∧
    qpid.step s₀ (.call (.app 0) (.qpidReceiveStop 0 "exchange")) = some s₁ ∧
    qpid.run s₁ [.exec (.app 0) .ok, .exec (.app 0) .ok, .exec (.app 0) .ok,
      .exec (.app 0) .throw, .exec (.app 0) .ok, .exec (.app 0) .ok, .exec (.app 0) .ok,
      .work 0 .test, .exec (.app 0) .ok] = some s₂ ∧
    s₂.frame (.app 0) = .idle (some (.status .qpidError)) ∧
    (s₂.recv 0).Gone ∧ ∀ a, qpid.step s₂ (.work 0 a) = none := by
  have hrun : ∃ s₀ s₁ s₂, qpid.run State.init (startLabels 0 "exchange") = some s₀ ∧
      s₀.Registered 0 "exchange" 0 ∧
      qpid.step s₀ (.call (.app 0) (.qpidReceiveStop 0 "exchange")) = some s₁ ∧
      qpid.run s₁ [.exec (.app 0) .ok, .exec (.app 0) .ok, .exec (.app 0) .ok,
        .exec (.app 0) .throw, .exec (.app 0) .ok, .exec (.app 0) .ok, .exec (.app 0) .ok,
        .work 0 .test, .exec (.app 0) .ok] = some s₂ ∧
      s₂.frame (.app 0) = .idle (some (.status .qpidError)) :=
    ⟨_, _, _, rfl, rfl, rfl, rfl, rfl⟩
  obtain ⟨s₀, s₁, s₂, hs₀, hreg, hcall, hs₂, hret⟩ := hrun
  have h₀ : qpid.ReachableWhere RaceFree State.init s₀ :=
    raceFree_of_run hs₀ (by simp [startLabels, AppOnly, Operation.object])
  have h₁ : qpid.ReachableWhere RaceFree s₁ s₂ := by
    refine Conc.Machine.reachableWhere_of_run hs₂ (Conc.Machine.allSteps_of_labels ?_)
    simp [RaceFree]
  exact ⟨s₀, s₁, s₂, hs₀, hcall, hs₂, hret,
    quiescent_after_stop h₀ (raceFree_call_of_run _ hs₀ (by decide)) hcall ⟨rfl, rfl⟩ hreg h₁
      hret (.refl _)⟩

end Comyno
