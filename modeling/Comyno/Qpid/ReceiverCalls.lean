import Comyno.Conc.Protocol
import Comyno.Qpid.Life

/-!
# In which order a receiver calls its connector

A `QPIDReceiver` calls `QPIDBrokerConnector` from several threads: the thread that starts it, its
worker, and whoever stops or destroys it.  The protocol below says which calls may follow which, on
the connection and the session of one receiver: the four calls that set the session up come first,
once each and in their order; after a failed one there are only closes; then the worker fetches and
acknowledges by turns, until one of the two fails or the callback throws, and asks once whether the
connection is open.  Closes may come at any time from then on.

## Main results

* `InPhase.step` : the calls of one step are allowed.
* `receiver_keeps_protocol` : in every run, of any number of objects and threads, the calls of every
  receiver keep the protocol.
-/

namespace Comyno

open Conc

/-- The calls of the connector that belong to a receiver. -/
inductive ReceiverCall where
  | createConnection
  | openConnection
  | createSession
  | createReceiver
  | receiverFetch
  | sessionAcknowledge
  | connectionIsOpen
  | closeConnection
  deriving DecidableEq, Repr

/-! ### The protocol -/

/-- What was called last, apart from closes. -/
inductive ReceiverPhase where
  | new
  | created
  | opened
  | session
  /-- The receiver exists, and what was fetched is acknowledged. -/
  | ready
  | fetched
  /-- A call of the worker has thrown. -/
  | broken
  /-- The worker has asked whether the connection is open. -/
  | asked
  /-- A call of `receiveMessages` has thrown. -/
  | failed
  deriving DecidableEq, Repr

namespace ReceiverPhase

/-- The session is being set up. -/
def early : ReceiverPhase → Bool
  | new | created | opened | session => true
  | ready | fetched | broken | asked | failed => false

/-- What a call with its outcome leads to. -/
def next (q : ReceiverPhase) : ReceiverCall × Outcome → Option ReceiverPhase
  | (.createConnection, .ok) => if q = new then some created else none
  | (.openConnection, x) => if q = created then some (if x = .ok then opened else failed) else none
  | (.createSession, x) => if q = opened then some (if x = .ok then session else failed) else none
  | (.createReceiver, x) => if q = session then some (if x = .ok then ready else failed) else none
  | (.receiverFetch, x) => if q = ready then some (if x = .ok then fetched else broken) else none
  | (.sessionAcknowledge, x) =>
    if q = fetched then some (if x = .ok then ready else broken) else none
  -- the callback may have thrown after the fetch
  | (.connectionIsOpen, _) => if q = fetched ∨ q = broken then some asked else none
  | (.closeConnection, _) => if q.early then none else some q
  -- there is no receiver then
  | (.createConnection, .throw) => none

end ReceiverPhase

/-- The protocol of the calls of one receiver. -/
def receiverProtocol : Protocol (ReceiverCall × Outcome) ReceiverPhase := 
  ⟨.new, ReceiverPhase.next⟩

/-! ### The calls of a step -/

/-- The call at a program point of `receiveMessages`. -/
def StartPc.call : StartPc → Option ReceiverCall
  | .openConnection => some .openConnection
  | .createSession => some .createSession
  | .createReceiver => some .createReceiver
  | .createThread => none
  | .handler => some .closeConnection

/-- The call that a step of the worker makes, with its outcome. -/
def WorkerAct.call : WorkerAct → Option (ReceiverCall × Outcome)
  | .fetch _ => some (.receiverFetch, .ok)
  | .fetchThrow => some (.receiverFetch, .throw)
  | .acknowledge => some (.sessionAcknowledge, .ok)
  | .acknowledgeThrow _ => some (.sessionAcknowledge, .throw)
  | .isOpen => some (.connectionIsOpen, .ok)
  | .isOpenThrow => some (.connectionIsOpen, .throw)
  | .close => some (.closeConnection, .ok)
  | .closeThrow => some (.closeConnection, .throw)
  | .test | .lock | .invoke | .callbackReturn | .callbackThrow | .unlock => none

/-- The call that a step of an operation makes for the receiver `r`. -/
def Frame.call (next : RecvId) (x : Outcome) (r : RecvId) : Frame → Option (ReceiverCall × Outcome)
  | .construct _ _ => if next = r ∧ x = .ok then some (.createConnection, .ok) else none
  | .start pc _ _ q => if q = r then pc.call.map (·, x) else none
  | .stop .close _ q => if q = r then some (.closeConnection, x) else none
  | .dtor .close _ q => if q = r then some (.closeConnection, x) else none
  | _ => none

/-- The calls that the step `l` from `s` makes for the receiver `r`. -/
def Label.calls (s : State) (l : Label) (r : RecvId) : List (ReceiverCall × Outcome) :=
  match l with
  | .exec t x => ((s.frame t).call s.next x r).toList
  | .work q a => if q = r then a.call.toList else []
  | .call _ _ | .pick _ _ | .lost _ => []

/-! ### Where the protocol is -/

/-- The phases at a program point of `receiveMessages`. -/
def StartPc.InPhase : StartPc → ReceiverPhase → Prop
  | .openConnection, q => q = .created
  | .createSession, q => q = .opened
  | .createReceiver, q => q = .session
  | .createThread, q => q = .ready
  | .handler, q => q = .ready ∨ q = .failed

/-- The phases at a program point of the worker. -/
def WorkerPc.InPhase : WorkerPc → ReceiverPhase → Prop
  | .unborn, _ => True
  | .test, q | .fetch, q => q = .ready
  | .lock _, q | .call _, q | .callback _, q | .unlock, q | .acknowledge, q => q = .fetched
  | .handler, q => q = .fetched ∨ q = .broken
  | .handlerClose, q => q = .asked
  | .exited, q => q = .ready ∨ q = .asked

/-- The calls made for the receiver `r` have led to the phase `q`. -/
structure InPhase (s : State) (r : RecvId) (q : ReceiverPhase) : Prop where
  new_iff : q = .new ↔ s.next ≤ r
  /-- A session that is being set up is known to one operation only. -/
  building : q.early = true → q ≠ .new → ∃ t pc o e, s.frame t = .start pc o e r
  start : ∀ t pc o e, s.frame t = .start pc o e r → pc.InPhase q
  worker : (s.recv r).pc.InPhase q

namespace InPhase

variable {s s' : State} {l : Label} {t : Thread} {r : RecvId} {q q' : ReceiverPhase}

/-- Whoever closes the connection finds the session set up, or its setup failed. -/
theorem not_early (h : InPhase s r q) (hs : Life s) (hrecv : (s.frame t).recv = some r)
    (ht : ∀ pc o e, s.frame t ≠ .start pc o e r) : q.early = false := by
  have hnew : q ≠ .new := fun hq => Nat.not_lt.2 (h.new_iff.1 hq) (hs.frame_lt t r hrecv)
  by_contra hq
  obtain ⟨u, pc, o, e, hu⟩ := h.building (eq_true_of_ne_false hq) hnew
  have htu := hs.builds_unique u t r (by simp [hu]) hrecv
  exact ht pc o e (htu ▸ hu)

/-- A step of another operation than `receiveMessages` for `r`, which leaves the worker alone. -/
theorem congr (h : InPhase s r q) (hnext : s'.next ≤ r ↔ s.next ≤ r)
    (hpc : (s'.recv r).pc = (s.recv r).pc)
    (hframe : ∀ u pc o e, s'.frame u = .start pc o e r ↔ s.frame u = .start pc o e r) :
    InPhase s' r q where
  new_iff := h.new_iff.trans hnext.symm
  building hq hnew := by
    obtain ⟨u, pc, o, e, hu⟩ := h.building hq hnew
    exact ⟨u, pc, o, e, (hframe u pc o e).2 hu⟩
  start u pc o e hu := h.start u pc o e ((hframe u pc o e).1 hu)
  worker := hpc ▸ h.worker

end InPhase

section Step

variable {s s' : State} {l : Label} {t : Thread} {r : RecvId} {q : ReceiverPhase}

/-- The calls of a step are allowed and lead to the phase after it. -/
def Allowed (s : State) (l : Label) (s' : State) (r : RecvId) (q : ReceiverPhase) : Prop :=
  ∃ q', receiverProtocol.run q (l.calls s r) = some q' ∧ InPhase s' r q'

/-- A step that makes no call for `r`. -/
theorem Allowed.silent (hcalls : l.calls s r = []) (h : InPhase s' r q) : Allowed s l s' r q :=
  ⟨q, by rw [hcalls]; rfl, h⟩

/-- A step that closes the connection of `r`. -/
theorem Allowed.close {x : Outcome} (hcalls : l.calls s r = [(.closeConnection, x)])
    (hq : q.early = false) (h : InPhase s' r q) : Allowed s l s' r q :=
  ⟨q, by simp [hcalls, receiverProtocol, ReceiverPhase.next, hq], h⟩

/-- The worker makes the calls of its loop and its catch block. -/
theorem WorkStep.inPhase {R R' : Receiver} {a : WorkerAct} (h : WorkStep R a R')
    (hq : R.pc.InPhase q) :
    ∃ q', receiverProtocol.run q a.call.toList = some q' ∧ R'.pc.InPhase q' ∧
      (q'.early = false) ∧ q.early = false := by
  cases h with
  | testActive hpc _ | testInactive hpc _ | lock hpc | invoke hpc | callThrow hpc
  | callbackReturn hpc | callbackThrow hpc | unlock hpc =>
    rw [hpc] at hq
    cases hq
    simp [WorkerAct.call, WorkerPc.InPhase, ReceiverPhase.early]
  | fetch hpc | fetchThrow hpc | acknowledge hpc | acknowledgeApplied hpc | acknowledgeThrow hpc
  | close hpc | closeThrow hpc =>
    rw [hpc] at hq
    cases hq
    simp [WorkerAct.call, WorkerPc.InPhase, ReceiverPhase.early, receiverProtocol,
      ReceiverPhase.next]
  | isOpen hpc _ | isNotOpen hpc _ | isOpenThrow hpc =>
    rw [hpc] at hq
    rcases hq with rfl | rfl <;>
      simp [WorkerAct.call, WorkerPc.InPhase, ReceiverPhase.early, receiverProtocol,
        ReceiverPhase.next]

/-- `receiveMessages` goes on from a program point for `r`. -/
theorem InPhase.of_move (hs : Life s) {pc : StartPc} {o : ObjId} {e : String}
    (ht : s.frame t = .start pc o e r) (hframe : ∀ u, u ≠ t → s'.frame u = s.frame u)
    (hnext : s'.next = s.next) {q' : ReceiverPhase} (hnew : q' ≠ .new)
    (hbuild : q'.early = true → ∃ pc' o' e', s'.frame t = .start pc' o' e' r)
    (hstart : ∀ pc' o' e', s'.frame t = .start pc' o' e' r → pc'.InPhase q')
    (hworker : (s'.recv r).pc.InPhase q') : InPhase s' r q' where
  new_iff := by
    refine iff_of_false hnew (Nat.not_le.2 ?_)
    rw [hnext]
    exact hs.frame_lt t r (by rw [ht]; rfl)
  building hq _ := ⟨t, hbuild hq⟩
  start u pc' o' e' hu := by
    by_cases hut : u = t
    · exact hstart pc' o' e' (hut ▸ hu)
    · rw [hframe u hut] at hu
      exact absurd (hs.builds_unique t u r (by simp [ht]) (by rw [hu]; rfl)) hut
  worker := hworker

/-- The worker of `r` takes a step. -/
theorem InPhase.work (h : InPhase s r q) (hb : Born s) {a : WorkerAct} {R : Receiver}
    (hw : WorkStep (s.recv r) a R) (hnext : s'.next = s.next) (hframe : s'.frame = s.frame)
    (hR : s'.recv r = R) :
    ∃ q', receiverProtocol.run q a.call.toList = some q' ∧ InPhase s' r q' := by
  obtain ⟨q', hrun, hin, hlate', hlate⟩ := hw.inPhase h.worker
  have hnot : ∀ q : ReceiverPhase, q.early = false → q ≠ .new := by
    rintro _ hq rfl
    cases hq
  refine ⟨q', hrun, ⟨?_, fun hq => ?_, fun u pc o e hu => ?_, hR ▸ hin⟩⟩
  · rw [hnext, ← h.new_iff]
    exact iff_of_false (hnot q' hlate') (hnot q hlate)
  · rw [hlate'] at hq
    cases hq
  · rw [hframe] at hu
    exact absurd ((hb.wf r).unborn_iff.2 (hb.start_thread u pc o e r hu)) hw.pc_ne.1

/-- A step of `receiveMessages`. -/
theorem InPhase.starting (h : InPhase s r q) (hs : Life s) (hb : Born s) {pc : StartPc}
    {o : ObjId} {e : String} {x : Outcome} (ht : s.frame t = .start pc o e r)
    (hst : Step s (.exec t x) s') : Allowed s (.exec t x) s' r q := by
  have hpc := h.start t pc o e ht
  have hunborn : (s.recv r).pc = .unborn :=
    (hb.wf r).unborn_iff.2 (hb.start_thread t pc o e r ht)
  have hcalls : Label.calls s (.exec t x) r = (pc.call.map (·, x)).toList := by
    simp [Label.calls, ht, Frame.call]
  have hframe : ∀ u, u ≠ t → s'.frame u = s.frame u := fun u hu =>
    hst.frame_of_ne fun h => hu (Option.some.inj h).symm
  cases hst with
  | openConnection hf | createSession hf | createReceiver hf =>
    cases ht.symm.trans hf
    cases hpc
    refine ⟨_, by rw [hcalls]; rfl, InPhase.of_move hs ht hframe rfl (by simp) (by simp) ?_ ?_⟩
    · intro pc' o' e' hf'
      simp only [State.goto_frame, if_true] at hf'
      cases hf'
      rfl
    · simp [hunborn, WorkerPc.InPhase]
  | createThread hf =>
    cases ht.symm.trans hf
    cases hpc
    refine ⟨.ready, by rw [hcalls]; rfl, InPhase.of_move hs ht hframe rfl (by simp) ?_ (by simp) ?_⟩
    · simp [ReceiverPhase.early]
    · simp [WorkerPc.InPhase]
  | startThrow hf hne =>
    cases ht.symm.trans hf
    have hmove : ∀ q' : ReceiverPhase, q' = .ready ∨ q' = .failed →
        InPhase (s.goto t (.start .handler o e r)) r q' := by
      intro q' hq'
      refine InPhase.of_move hs ht hframe rfl ?_ (fun _ => ⟨.handler, o, e, by simp⟩) ?_ ?_
      · rcases hq' with rfl | rfl <;> simp
      · intro pc' o' e' hf'
        simp only [State.goto_frame, if_true] at hf'
        cases hf'
        exact hq'
      · rw [State.goto_recv, hunborn]
        trivial
    cases pc with
    | handler => exact absurd rfl hne
    | createThread =>
      cases hpc
      exact ⟨_, by rw [hcalls]; rfl, hmove _ (Or.inl rfl)⟩
    | openConnection | createSession | createReceiver =>
      cases hpc
      exact ⟨_, by rw [hcalls]; rfl, hmove _ (Or.inr rfl)⟩
  | handler hf | handlerThrow hf =>
    cases ht.symm.trans hf
    have hlate : q.early = false := by rcases hpc with rfl | rfl <;> rfl
    have hnew : q ≠ .new := by rcases hpc with rfl | rfl <;> simp
    refine .close (by rw [hcalls]; rfl) hlate
      (InPhase.of_move hs ht hframe rfl hnew ?_ (by simp) ?_)
    · simp [hlate]
    · simp [hunborn, WorkerPc.InPhase, Receiver.closeConnection, Receiver.closeConnectionThrow]
  | _ => simp_all

/-- The step constructs the receiver. -/
theorem InPhase.construct (h : InPhase s r q) (hs : Life s) {o : ObjId} {e : String}
    (ht : s.frame t = .construct o e) (hr : s.next = r) :
    Allowed s (.exec t .ok)
      { s.goto t (.start .openConnection o e s.next) with next := s.next + 1 } r q := by
  obtain rfl := h.new_iff.2 (Nat.le_of_eq hr)
  refine ⟨.created, by simp [Label.calls, ht, Frame.call, hr, receiverProtocol,
    ReceiverPhase.next], ⟨?_, fun _ _ => ⟨t, .openConnection, o, e, by simp [hr]⟩, ?_, ?_⟩⟩
  · exact iff_of_false (by simp) (by simp [hr])
  · intro u pc o' e' hu
    by_cases hut : u = t
    · simp only [State.goto_frame, hut, if_true] at hu
      cases hu
      rfl
    · simp only [State.goto_frame, hut, if_false] at hu
      exact absurd (hs.frame_lt u r (by rw [hu]; rfl)) (by simp [hr])
  · have hfresh := hs.fresh r (Nat.le_of_eq hr)
    change (s.recv r).pc.InPhase .created
    rw [hfresh]
    trivial

/-- Receivers are numbered when they are constructed. -/
theorem Step.next_cases (h : Step s l s') : s'.next = s.next ∨
    ∃ t o e, l = .exec t .ok ∧ s.frame t = .construct o e ∧ s'.next = s.next + 1 := by
  cases h
  case construct t o e hf => exact Or.inr ⟨t, o, e, rfl, hf, rfl⟩
  all_goals exact Or.inl rfl

/-- `receiveMessages` goes on by executing its next program point. -/
theorem Step.exec_of_start (h : Step s l s') {u : Thread} {pc : StartPc} {o : ObjId} {e : String}
    (hl : l.thread = some u) (hu : s.frame u = .start pc o e r) : ∃ x, l = .exec u x := by
  have hready := @State.idle_of_ready s u
  cases h <;> simp_all [Label.thread]

/-- Where an operation is in `receiveMessages` for `r` after a step. -/
theorem Step.start_of_frame (h : Step s l s') {u : Thread} {pc' : StartPc} {o : ObjId} {e : String}
    (hu : s'.frame u = .start pc' o e r) :
    s.frame u = .start pc' o e r ∨ (∃ x pc, l = .exec u x ∧ s.frame u = .start pc o e r) ∨
      l = .exec u .ok ∧ s.frame u = .construct o e ∧ s.next = r := by
  by_cases hl : l.thread = some u
  · cases h <;> simp_all [Label.thread]
  · exact Or.inl (h.frame_of_ne hl ▸ hu)

/-- What an operation calls for `r`, outside of `receiveMessages` for `r`. -/
theorem Frame.call_cases {f : Frame} {next : RecvId} {x : Outcome}
    (hf : ∀ pc o e, f ≠ .start pc o e r) (hnew : ¬ ∃ o e, f = .construct o e ∧ next = r ∧ x = .ok) :
    f.call next x r = none ∨ f.call next x r = some (.closeConnection, x) ∧ f.recv = some r := by
  cases f with
  | construct o e =>
    refine Or.inl (if_neg fun h => hnew ⟨o, e, rfl, h⟩)
  | start pc o e q =>
    refine Or.inl (if_neg ?_)
    rintro rfl
    exact hf pc o e rfl
  | stop pc k q | dtor pc k q =>
    cases pc with
    | close =>
      by_cases hq : q = r
      · exact Or.inr ⟨if_pos hq, by simp [hq]⟩
      · exact Or.inl (if_neg hq)
    | _ => exact Or.inl rfl
  | _ => exact Or.inl rfl

/-- A step outside of `receiveMessages` for `r` and of the worker of `r`. -/
theorem InPhase.elsewhere (h : InPhase s r q) (hst : Step s l s')
    (hstart : ∀ t x pc o e, l = .exec t x → s.frame t ≠ .start pc o e r)
    (hnew : ∀ t o e, l = .exec t .ok → s.frame t = .construct o e → s.next ≠ r)
    (hwork : ∀ a, l ≠ .work r a) : InPhase s' r q := by
  refine h.congr ?_ ?_ fun u pc o e => ⟨fun hu => ?_, fun hu => ?_⟩
  · rcases hst.next_cases with heq | ⟨t, o, e, hl, hf, heq⟩
    · rw [heq]
    · have hne := hnew t o e hl hf
      rw [heq]
      exact ⟨fun h => Nat.le_of_succ_le h, fun h => Nat.lt_of_le_of_ne h hne⟩
  · have hm := hst.recv_move r
    generalize s'.recv r = R at hm
    cases hm with
    | work => exact absurd rfl (hwork _)
    | spawned hf => exact absurd hf (hstart _ _ _ _ _ rfl)
    | same | lost | opened | named | activated | deactivated | closed | closeThrew | joined
    | destroyed | joinDestroyed => rfl
  · rcases hst.start_of_frame hu with hu | ⟨x, pc', hl, hu⟩ | ⟨hl, hu, hr⟩
    · exact hu
    · exact absurd hu (hstart u x pc' o e hl)
    · exact absurd hr (hnew u o e hl hu)
  · by_cases hl : l.thread = some u
    · obtain ⟨x, hx⟩ := hst.exec_of_start hl hu
      exact absurd hu (hstart u x pc o e hx)
    · rw [hst.frame_of_ne hl, hu]

/-- **The calls of one step are allowed.** -/
theorem InPhase.step (h : InPhase s r q) (hs : Life s) (hb : Born s) (hst : Step s l s') :
    Allowed s l s' r q := by
  by_cases hstart : ∃ t x pc o e, l = .exec t x ∧ s.frame t = .start pc o e r
  · obtain ⟨t, x, pc, o, e, rfl, ht⟩ := hstart
    exact h.starting hs hb ht hst
  by_cases hnew : ∃ t o e, l = .exec t .ok ∧ s.frame t = .construct o e ∧ s.next = r
  · obtain ⟨t, o, e, rfl, ht, hr⟩ := hnew
    cases hst with
    | construct hf =>
      cases ht.symm.trans hf
      exact h.construct hs hf hr
    | _ => simp_all
  by_cases hwork : ∃ a, l = .work r a
  · obtain ⟨a, rfl⟩ := hwork
    obtain ⟨q', hrun, hin⟩ := h.work hb hst.work_step
      (hst.next_cases.resolve_right (by simp))
      (funext fun u => hst.frame_of_ne (by simp [Label.thread])) rfl
    exact ⟨q', by simpa [Label.calls] using hrun, hin⟩
  push Not at hstart hnew hwork
  have hin := h.elsewhere hst hstart hnew hwork
  cases l with
  | work q₀ a =>
    have hne : q₀ ≠ r := fun hq => hwork a (by rw [hq])
    exact .silent (by simp [Label.calls, hne]) hin
  | call | pick | lost => exact .silent rfl hin
  | exec t x =>
    have hnot : ¬ ∃ o e, s.frame t = .construct o e ∧ s.next = r ∧ x = .ok := by
      rintro ⟨o, e, hf, hr, rfl⟩
      exact hnew t o e rfl hf hr
    rcases Frame.call_cases (fun pc o e => hstart t x pc o e rfl) hnot with hcall | ⟨hcall, hrecv⟩
    · exact .silent (by simp [Label.calls, hcall]) hin
    · refine .close (x := x) (by simp [Label.calls, hcall]) ?_ hin
      exact h.not_early hs hrecv fun pc o e => hstart t x pc o e rfl

end Step

/-! ### All runs -/

theorem InPhase.init (r : RecvId) : InPhase State.init r .new where
  new_iff := iff_of_true rfl (Nat.zero_le r)
  building _ h := absurd rfl h
  start _ _ _ _ h := by cases h
  worker := trivial

/-- The library with the calls of each receiver. -/
def tracedReceivers : Machine (State × (RecvId → List (ReceiverCall × Outcome))) Label :=
  qpid.traced fun s l r => l.calls s r

/-- **Every receiver keeps the protocol of its connector.**  In every run of the library, with any
number of `QPIDMessaging` objects, threads and receivers, every pattern of exceptions and every
interleaving, the calls made for one receiver come in an order that the protocol allows. -/
theorem receiver_keeps_protocol {s : State} {trace : RecvId → List (ReceiverCall × Outcome)}
    (h : tracedReceivers.Reachable (State.init, fun _ => []) (s, trace)) (r : RecvId) :
    ∃ q, receiverProtocol.after (trace r) = some q := by
  obtain ⟨q, hq, -⟩ := Machine.keeps_protocol (C := fun _ _ => True) (P := receiverProtocol)
    (I := fun s => Life s ∧ Born s) (R := InPhase)
    (fun s hs => ⟨life_of_reachable hs, born_of_reachable hs⟩) InPhase.init
    (fun s l s' r q hI hq _ hst => hq.step hI.1 hI.2 (step_cases hst).2) h r
  exact ⟨q, hq⟩

/-- A receiver that was started, and whose worker has fetched and acknowledged a message. -/
theorem receiver_keeps_protocol_fetched : ∃ s trace,
    tracedReceivers.run (State.init, fun _ => []) (startLabels 0 "e" ++ [.work 0 .test,
      .work 0 (.fetch ⟨"m", ⟨""⟩⟩), .work 0 .lock, .work 0 .invoke, .work 0 .callbackReturn,
      .work 0 .unlock, .work 0 .acknowledge]) = some (s, trace) ∧
    trace 0 = [(.createConnection, .ok), (.openConnection, .ok), (.createSession, .ok),
      (.createReceiver, .ok), (.receiverFetch, .ok), (.sessionAcknowledge, .ok)] ∧
    ∃ q, receiverProtocol.after (trace 0) = some q := by
  have hrun : ∃ s trace, tracedReceivers.run (State.init, fun _ => []) (startLabels 0 "e" ++
      [.work 0 .test, .work 0 (.fetch ⟨"m", ⟨""⟩⟩), .work 0 .lock, .work 0 .invoke,
        .work 0 .callbackReturn, .work 0 .unlock, .work 0 .acknowledge]) = some (s, trace) ∧
      trace 0 = [(.createConnection, .ok), (.openConnection, .ok), (.createSession, .ok),
        (.createReceiver, .ok), (.receiverFetch, .ok), (.sessionAcknowledge, .ok)] :=
    ⟨_, _, rfl, rfl⟩
  obtain ⟨s, trace, hs, htrace⟩ := hrun
  exact ⟨s, trace, hs, htrace, receiver_keeps_protocol (Machine.reachable_of_run hs) 0⟩

end Comyno
