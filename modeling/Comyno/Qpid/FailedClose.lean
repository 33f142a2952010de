import Comyno.Qpid.Life

/-!
# Stopping when closing fails

`receiveStop` clears `mReceivingActive` before it closes the connection.  If `closeConnection`
throws, `receiveStop` gives up without joining the worker, and the destructor that follows finds
the flag cleared and joins the worker without closing the connection.  A worker that is blocked
in `receiverFetch` at that time is never woken.

## Main results

* `hangs_of_failed_close` : a run in which `qpidReceiveStop` waits for such a worker.
* `not_hangs_of_reachable` : this needs a close that throws while the worker is in
  `receiverFetch` on the open connection.  In runs without such a step nobody ever waits for a
  worker whose connection stays open.
-/

namespace Comyno

/-- `t` waits to join the worker of `r`, which is in `receiverFetch` on a connection that is
open and that nobody is about to close. -/
def State.Hangs (s : State) (t : Thread) (r : RecvId) : Prop :=
  (s.frame t).joins r ∧ (s.recv r).pc = .fetch ∧ (s.recv r).isOpen = true ∧
    ∀ u, ¬ (s.frame u).closes r

/-- The worker of `r` is in `receiverFetch` on an open connection. -/
def State.Fetching (s : State) (r : RecvId) : Prop :=
  (s.recv r).pc = .fetch ∧ (s.recv r).isOpen = true

/-- Where `closeConnection` throws in `receiveStop`, the worker is not in `receiverFetch` on the
open connection. -/
def FailsIdle (s : State) (l : Label) : Prop :=
  ∀ t k r, l = .exec t .throw → s.frame t = .stop .close k r → ¬ s.Fetching r

/-- A worker that fetches although its receiver is stopped will have its connection closed. -/
def ClosePending (s : State) : Prop :=
  ∀ r, (s.recv r).thread ≠ .none → (s.recv r).mReceivingActive = false → s.Fetching r →
    ∃ t, (s.frame t).closes r

section Step

variable {s s' : State} {l : Label}

/-- The worker of a stopped receiver does not start to fetch, and its connection is not opened. -/
theorem Step.fetching_of (h : Step s l s') (hb : Born s) {r : RecvId}
    (hthread : (s.recv r).thread ≠ .none) (hflag : (s.recv r).mReceivingActive = false)
    (hr : s'.Fetching r) : s.Fetching r := by
  unfold State.Fetching at hr ⊢
  have hm := h.recv_move r
  generalize s'.recv r = R at hm hr
  cases hm with
  | work hw => cases hw <;> simp_all
  | opened hf => exact absurd (hb.start_thread _ _ _ _ _ hf) hthread
  | spawned | lost | closed => simp_all [Receiver.closeConnection]
  | same | named | activated | deactivated | closeThrew | joined | joinDestroyed | destroyed =>
    exact hr

theorem ClosePending.step (hk : ClosePending s) (hb : Born s) (hc : FailsIdle s l)
    (h : Step s l s') : ClosePending s' := by
  intro r hthread hflag hr
  rcases h.stopped_of hb hthread hflag with ⟨hthread', hflag'⟩ | hclose
  · have hr' := h.fetching_of hb hthread' hflag' hr
    obtain ⟨t, ht⟩ := hk r hthread' hflag' hr'
    rcases h.closes_cases ht with ht' | hclosed | ⟨-, hl, hbuild | ⟨k, hf⟩⟩
    · exact ⟨t, ht'⟩
    · exact absurd hr.2 (by simp [hclosed, Receiver.closeConnection])
    · -- a receiver being built whose close threw has no thread
      cases hf : s.frame t with
      | start pc o e q =>
        obtain rfl : q = r := by simpa [hf] using hbuild
        exact absurd (hb.start_thread t pc o e q hf) hthread'
      | emplace => simp [hf] at ht
      | _ => simp [hf] at hbuild
    · exact absurd hr' (hc t k r hl hf)
  · exact hclose

end Step

theorem ClosePending.init : ClosePending State.init := fun _ h => absurd rfl h

/-- **Nobody waits for a worker that is not woken**, unless `closeConnection` throws in
`receiveStop` while the worker is in `receiverFetch` on the open connection. -/
theorem not_hangs_of_reachable {s : State} (h : qpid.ReachableWhere FailsIdle State.init s)
    (t : Thread) (r : RecvId) : ¬ s.Hangs t r := by
  have hb := born_of_reachable h
  have hk : ClosePending s := h.invariant_of (fun _ hr => born_of_reachable hr) ClosePending.init
    fun _ _ _ hb hk hc hst => hk.step hb hc (step_cases hst).2
  rintro ⟨hjoin, hpc, hopen, hnone⟩
  have hthread : (s.recv r).thread ≠ .none := by
    intro hn
    have := (hb.wf r).unborn_iff.2 hn
    rw [hpc] at this
    cases this
  obtain ⟨u, hu⟩ := hk r hthread (hb.joins_inactive hjoin) ⟨hpc, hopen⟩
  exact hnone u hu

/-- With the worker not yet in `receiverFetch`, a stop whose close throws waits for a worker that
is about to leave its loop. -/
theorem not_hangs_of_idle_worker : ∃ s, qpid.ReachableWhere FailsIdle State.init s ∧
    (s.frame (.app 0)).joins 0 ∧ ¬ s.Hangs (.app 0) 0 := by
  -- the run up to the close that throws, and the rest of it
  have hrun : ∃ s, qpid.run State.init (startLabels 0 "exchange" ++
      [.call (.app 0) (.qpidReceiveStop 0 "exchange"), .exec (.app 0) .ok, .exec (.app 0) .ok,
        .exec (.app 0) .ok]) = some s ∧
      s.frame (.app 0) = .stop .close (.receiveStop 0 "exchange") 0 ∧ (s.recv 0).pc = .test ∧
      ∃ s', qpid.run s [.exec (.app 0) .throw, .exec (.app 0) .ok, .exec (.app 0) .ok,
          .exec (.app 0) .ok] = some s' ∧
        s'.frame (.app 0) = .dtor .join (.operation (.status .qpidError)) 0 :=
    ⟨_, rfl, rfl, rfl, _, rfl, rfl⟩
  obtain ⟨s, hs, hf, hpc, s', hs', hf'⟩ := hrun
  have h₁ : qpid.ReachableWhere FailsIdle State.init s := by
    refine Conc.Machine.reachableWhere_of_run hs (Conc.Machine.allSteps_of_labels ?_)
    intro l hl s t k r hlt
    subst hlt
    simp [startLabels] at hl
  have h₂ : qpid.ReachableWhere FailsIdle s s' := by
    refine Conc.Machine.reachableWhere_of_run hs' fun s₁ _ => ⟨?_, ?_⟩
    · intro t k r hl hft
      cases hl
      rw [hf] at hft
      cases hft
      simp [State.Fetching, hpc]
    · refine Conc.Machine.allSteps_of_labels ?_
      intro l hl s t k r hlt
      subst hlt
      simp at hl
  exact ⟨s', h₁.trans h₂, by simp [hf'], not_hangs_of_reachable (h₁.trans h₂) _ _⟩

/-- A stop whose `closeConnection` throws while the worker fetches. -/
def failedCloseLabels : List Label :=
  startLabels 0 "exchange" ++ .work 0 .test :: .call (.app 0) (.qpidReceiveStop 0 "exchange") ::
    [.exec (.app 0) .ok, .exec (.app 0) .ok, .exec (.app 0) .ok, .exec (.app 0) .throw,
      .exec (.app 0) .ok, .exec (.app 0) .ok, .exec (.app 0) .ok]

/-- A close that throws leaves `qpidReceiveStop` waiting for the worker forever. -/
theorem hangs_of_failed_close :
    ¬ ∀ s, qpid.Reachable State.init s → ∀ t r, ¬ s.Hangs t r := by
  intro h
  have hrun : ∃ s, qpid.run State.init failedCloseLabels = some s ∧
      s.frame (.app 0) = .dtor .join (.operation (.status .qpidError)) 0 ∧
      (s.recv 0).pc = .fetch ∧ (s.recv 0).isOpen = true :=
    ⟨_, rfl, rfl, rfl, rfl⟩
  obtain ⟨s, hs, hf, hpc, hopen⟩ := hrun
  refine h s (Conc.Machine.reachable_of_run hs) (.app 0) 0 ⟨by simp [hf], hpc, hopen, fun u => ?_⟩
  by_cases hu : u = .app 0
  · rw [hu, hf]
    simp
  · have hidle : s.frame u = .idle none := frame_of_run_of_ne hs (by decide) hu
    simp [hidle]

end Comyno
