import Comyno.Qpid.Quiescence

/-!
# A library used by one thread

An application that has one `QPIDMessaging` object, and whose callbacks do not call its operations,
executes one operation at a time.  Then a receiver with a worker thread can be found: it is
registered under its own exchange, or it is the receiver that the one operation works on.

## Main results

* `Seated` : the invariant; `seated_of_reachable`.
* `Seated.registered` : between two operations, every receiver with a worker thread is registered
  under its exchange.
-/

namespace Comyno

/-- Only the application thread of `o` executes operations, all of them on `o`. -/
def Solo (o : ObjId) (_ : State) (l : Label) : Prop :=
  ∀ t c, l = .call t c → t = .app o ∧ c.object = o

/-- A frame that builds a receiver builds it for `o`, and a receiver that has got its exchange has
that of the operation. -/
def Frame.Builds (o : ObjId) (recv : RecvId → Receiver) : Frame → Prop
  | .construct p _ => p = o
  | .start pc p e r => p = o ∧
      (pc = .createReceiver ∨ pc = .createThread → (recv r).mExchange = e)
  | .emplace p e r => p = o ∧ (recv r).mExchange = e
  | .idle _ | .index _ _ | .stop _ _ _ | .erase _ _ _ | .dtor _ _ _ | .stopAll _ _
  | .clearAll _ => True

attribute [simp] Frame.Builds.eq_1 Frame.Builds.eq_2 Frame.Builds.eq_3 Frame.Builds.eq_4
  Frame.Builds.eq_5 Frame.Builds.eq_6 Frame.Builds.eq_7 Frame.Builds.eq_8 Frame.Builds.eq_9
  Frame.Builds.eq_10

@[simp] theorem StopCaller.builds_frame (k : StopCaller) (st : QPIDStatus) (o : ObjId)
    (recv : RecvId → Receiver) : (k.frame st).Builds o recv := by cases k <;> trivial

@[simp] theorem DtorCaller.builds_frame (k : DtorCaller) (o : ObjId) (recv : RecvId → Receiver) :
    k.frame.Builds o recv := by cases k <;> trivial

theorem Frame.Builds.congr {o : ObjId} {recv recv' : RecvId → Receiver} {f : Frame}
    (h : f.Builds o recv) (hrecv : ∀ r, (recv' r).mExchange = (recv r).mExchange) :
    f.Builds o recv' := by
  cases f <;> simp_all

/-- Where the receivers of a library are that one application thread uses. -/
structure Seated (o : ObjId) (s : State) : Prop where
  others : ∀ t, t ≠ .app o → s.frame t = .idle none
  builds : (s.frame (.app o)).Builds o s.recv
  exchange : ∀ e r, s.Registered o e r → (s.recv r).mExchange = e
  joinable : ∀ r, (s.recv r).thread = .joinable → (∃ e, s.Registered o e r) ∨
    (∃ e, s.frame (.app o) = .emplace o e r) ∨ ∃ pc k, s.frame (.app o) = .dtor pc k r

section Step

variable {o : ObjId} {s s' : State} {l : Label}

/-- The thread that takes a step is in an operation, or enters one. -/
theorem Step.not_idle_of_thread (h : Step s l s') {t : Thread} (hl : l.thread = some t) :
    (∃ c, l = .call t c) ∨ ∀ last, s.frame t ≠ .idle last := by
  cases h <;> cases hl <;> simp_all

/-- A step changes the exchange of a receiver only while it is being started. -/
theorem Step.mExchange (h : Step s l s') (r : RecvId)
    (hno : ∀ t o e, l.thread = some t → s.frame t ≠ .start .createSession o e r) :
    (s'.recv r).mExchange = (s.recv r).mExchange := by
  have hm := h.recv_move r
  generalize s'.recv r = R at hm
  cases hm with
  | work hw => exact hw.keeps.1
  | named hf => exact absurd hf (hno _ _ _ rfl)
  | same | lost | opened | activated | spawned | deactivated | closed | closeThrew | joined
  | destroyed | joinDestroyed => rfl

/-- A worker thread was there before a step, or the step has created it. -/
theorem Step.joinable_of (h : Step s l s') {r : RecvId} (hr : (s'.recv r).thread = .joinable) :
    (s.recv r).thread = .joinable ∨ ∃ t p e, l = .exec t .ok ∧
      s.frame t = .start .createThread p e r ∧ s'.frame t = .emplace p e r := by
  have hm := h.recv_move r
  generalize s'.recv r = R at hm hr
  cases hm with
  | work hw =>
    rw [hw.keeps.2.2.1] at hr
    exact Or.inl hr
  | spawned hf hf' => exact Or.inr ⟨_, _, _, rfl, hf, hf'⟩
  | joined | joinDestroyed => cases hr
  | same | lost | opened | named | activated | deactivated | closed | closeThrew | destroyed =>
    exact Or.inl hr

end Step

namespace Seated

variable {o : ObjId} {s s' : State} {l : Label}

theorem others_step (hs : Seated o s) (hl : Solo o s l) (h : Step s l s') :
    ∀ t, t ≠ .app o → s'.frame t = .idle none := by
  intro t ht
  by_cases hlt : l.thread = some t
  · rcases h.not_idle_of_thread hlt with ⟨c, rfl⟩ | hidle
    · exact absurd (hl t c rfl).1 ht
    · exact absurd (hs.others t ht) (hidle none)
  · rw [h.frame_of_ne hlt]
    exact hs.others t ht

/-- The thread of a step is the application thread. -/
theorem thread_eq (hs : Seated o s) (hl : Solo o s l) (h : Step s l s') {t : Thread}
    (ht : l.thread = some t) : t = .app o := by
  by_contra hne
  rcases h.not_idle_of_thread ht with ⟨c, rfl⟩ | hidle
  · exact hne (hl t c rfl).1
  · exact hidle none (hs.others t hne)

/-- The thread of a frame other than the first one, and what the frame builds. -/
theorem builds_of_frame (hs : Seated o s) {t : Thread} {f : Frame} (hf : s.frame t = f)
    (hne : f ≠ .idle none) : t = .app o ∧ f.Builds o s.recv := by
  obtain rfl : t = .app o := by
    by_contra ht
    exact hne (hf.symm.trans (hs.others t ht))
  exact ⟨rfl, hf ▸ hs.builds⟩

theorem builds_step (hs : Seated o s) (hl : Solo o s l) (h : Step s l s') :
    (s'.frame (.app o)).Builds o s'.recv := by
  by_cases ht : l.thread = some (.app o)
  · have hb := hs.builds
    have hobj : ∀ c, l = .call (.app o) c → c.object = o := fun c hc => (hl _ c hc).2
    cases h <;> simp_all [Label.thread, Operation.object]
  · rw [h.frame_of_ne ht]
    refine hs.builds.congr fun r => h.mExchange r fun t p e hlt => ?_
    exact absurd (hs.thread_eq hl h hlt ▸ hlt) ht

theorem exchange_step (hs : Seated o s) (hlife : Life s) (h : Step s l s') :
    ∀ e r, s'.Registered o e r → (s'.recv r).mExchange = e := by
  intro e r hr
  rcases h.registered_of hr with hold | ⟨t, ht, -, -⟩
  · rw [h.mExchange r fun t p f _ hf => hlife.holds_unreg t o e r (by simp [hf]) hold]
    exact hs.exchange e r hold
  · obtain ⟨rfl, -, hexchange⟩ := hs.builds_of_frame ht (by simp)
    rw [h.mExchange r fun u p f _ hf => ?_]
    · exact hexchange
    · obtain rfl := hlife.builds_unique u (.app o) r (by simp [hf]) (by simp [ht])
      rw [ht] at hf
      cases hf

theorem joinable_step (hs : Seated o s) (hb : Born s) (hl : Solo o s l) (h : Step s l s') :
    ∀ r, (s'.recv r).thread = .joinable → (∃ e, s'.Registered o e r) ∨
      (∃ e, s'.frame (.app o) = .emplace o e r) ∨ ∃ pc k, s'.frame (.app o) = .dtor pc k r := by
  intro r hr
  rcases h.joinable_of hr with hold | ⟨t, p, e, rfl, ht, ht'⟩
  · rcases hs.joinable r hold with ⟨e, hreg⟩ | ⟨e, hf⟩ | ⟨pc, k, hf⟩
    · have hm := h.reg_move o e
      unfold State.Registered at hreg ⊢
      generalize hx : (s'.activeReceivers o).lookup e = x at hm
      cases hm with
      | same => exact Or.inl ⟨e, hx.trans hreg⟩
      | inserted _ hnone =>
        rw [hreg] at hnone
        cases hnone
      | @erased t st q hf hq hf' =>
        cases hreg.symm.trans hq
        obtain rfl := hs.thread_eq hl h (t := t) rfl
        exact Or.inr (Or.inr ⟨_, _, hf'⟩)
      | @cleared t q hf hq hf' =>
        cases hreg.symm.trans hq
        obtain rfl := hs.thread_eq hl h (t := t) rfl
        exact Or.inr (Or.inr ⟨_, _, hf'⟩)
    · by_cases ht : l.thread = some (.app o)
      · have hcall : ∀ c, l ≠ .call (.app o) c := by
          rintro c rfl
          cases h <;> simp_all [State.ready]
        cases h <;> simp_all [Label.thread, State.Registered]
        exact ⟨_, AList.lookup_insert _⟩
      · rw [h.frame_of_ne ht]
        exact Or.inr (Or.inl ⟨e, hf⟩)
    · rcases h.dtor_cases hb hf (by rw [hold]; simp) with ⟨pc', hf'⟩ | hgone
      · exact Or.inr (Or.inr ⟨pc', k, hf'⟩)
      · rw [hgone.joined] at hr
        cases hr
  · obtain ⟨rfl, rfl, -⟩ := hs.builds_of_frame ht (by simp)
    exact Or.inr (Or.inl ⟨e, ht'⟩)

theorem step (hs : Seated o s) (hlife : Life s) (hb : Born s) (hl : Solo o s l)
    (h : Step s l s') : Seated o s' where
  others := hs.others_step hl h
  builds := hs.builds_step hl h
  exchange := hs.exchange_step hlife h
  joinable := hs.joinable_step hb hl h

theorem init (o : ObjId) : Seated o State.init where
  others _ _ := rfl
  builds := trivial
  exchange _ _ h := by cases h
  joinable _ h := by cases h

/-- A step of another thread leaves the registry alone. -/
theorem lookup_of_ne (hs : Seated o s) (hl : Solo o s l) (h : Step s l s')
    (ht : l.thread ≠ some (.app o)) (e : String) :
    (s'.activeReceivers o).lookup e = (s.activeReceivers o).lookup e := by
  have hm := h.reg_move o e
  generalize (s'.activeReceivers o).lookup e = x at hm
  cases hm with
  | same => rfl
  | @inserted t | @erased t | @cleared t =>
    exact absurd (congrArg some (hs.thread_eq hl h (t := t) rfl)) ht

/-- Between two operations, every receiver with a worker thread is registered. -/
theorem registered (hs : Seated o s) {last : Option Result} (hf : s.frame (.app o) = .idle last)
    {r : RecvId} (hr : (s.recv r).thread = .joinable) :
    s.Registered o (s.recv r).mExchange r := by
  rcases hs.joinable r hr with ⟨e, hreg⟩ | ⟨e, hf'⟩ | ⟨pc, k, hf'⟩
  · rwa [hs.exchange e r hreg]
  · rw [hf] at hf'
    cases hf'
  · rw [hf] at hf'
    cases hf'

end Seated

theorem seated_of_reachable {o : ObjId} {s : State}
    (h : qpid.ReachableWhere (Solo o) State.init s) : Seated o s :=
  h.invariant_of (fun _ hr => life_and_born_of_reachable hr) (Seated.init o)
    fun _ _ _ hi hs hl hst => hs.step hi.1 hi.2 hl (step_cases hst).2

/-- A worker in its callback has a thread that was not joined. -/
theorem Receiver.Wf.joinable {R : Receiver} (hw : R.Wf) (hpc : R.pc.inCallback = true) :
    R.thread = .joinable := by
  cases ht : R.thread with
  | joinable => rfl
  | none =>
    rw [hw.unborn_iff.2 ht] at hpc
    cases hpc
  | joined =>
    rw [hw.exited_of_joined ht] at hpc
    cases hpc

end Comyno
