import Comyno.Qpid.Step

/-!
# Receivers from construction to destruction

The invariants that every run of the library has, whatever its callers do: from where a receiver
can be reached, and what is known about its flag and its thread there.

A receiver is built by one operation, which no other thread can disturb, then entered into at
most one registry under one exchange, and finally held by the one operation that removed it.

* `Life` : the places a receiver can be reached from.
* `Receiver.Wf`, `Born` : the flag, the thread handle and the worker of a receiver.
* `CallsInside` : a worker executes operations only inside its callback.
* `life_of_reachable`, `born_of_reachable`, `callsInside_of_reachable` : every reachable state
  satisfies them.
-/

namespace Comyno

namespace WorkStep

variable {R R' : Receiver} {a : WorkerAct}

/-- The worker changes neither the exchange nor the flag nor its own thread handle. -/
theorem keeps (h : WorkStep R a R') :
    R'.mExchange = R.mExchange ∧ R'.mReceivingActive = R.mReceivingActive ∧
      R'.thread = R.thread ∧ R'.destroyed = R.destroyed := by
  cases h <;> exact ⟨rfl, rfl, rfl, rfl⟩

theorem pc_ne (h : WorkStep R a R') : R.pc ≠ .unborn ∧ R'.pc ≠ .unborn ∧ R.pc ≠ .exited := by
  cases h <;> simp_all

end WorkStep

/-- Where receivers can be reached from. -/
structure Life (s : State) : Prop where
  /-- A receiver not constructed yet is untouched. -/
  fresh : ∀ r, s.next ≤ r → s.recv r = {}
  frame_lt : ∀ t r, (s.frame t).recv = some r → r < s.next
  reg_lt : ∀ o e r, s.Registered o e r → r < s.next
  /-- No other operation reaches a receiver that is being built. -/
  builds_unique : ∀ t u r, (s.frame t).builds r → (s.frame u).recv = some r → u = t
  /-- At most one operation holds a receiver outside the registries. -/
  holds_unique : ∀ t u r, (s.frame t).holds r → (s.frame u).holds r → u = t
  holds_unreg : ∀ t o e r, (s.frame t).holds r → ¬ s.Registered o e r
  /-- A receiver is registered at most once. -/
  reg_inj : ∀ o e p f r, s.Registered o e r → s.Registered p f r → o = p ∧ e = f

section Step

variable {s s' : State} {l : Label}

theorem Step.next_le (h : Step s l s') : s.next ≤ s'.next := by
  cases h <;> simp

/-- An operation that holds a receiver after a step held it before, has just constructed it, or
has just removed it from its registry. -/
theorem Step.holds_of_frame (h : Step s l s') {u : Thread} {r : RecvId}
    (hu : (s'.frame u).holds r) :
    (s.frame u).holds r ∨ r = s.next ∧ l.thread = some u ∨
      ∃ o e, l.thread = some u ∧ s.Registered o e r ∧ (s'.activeReceivers o).lookup e = none := by
  by_cases ht : l.thread = some u
  · cases h
    case erase t o e st q hf hr =>
      cases ht
      obtain rfl : q = r := by simpa using hu
      exact Or.inr (Or.inr ⟨o, e, rfl, hr, by simp⟩)
    case pickClear t o e q hf hr =>
      cases ht
      obtain rfl : q = r := by simpa using hu
      exact Or.inr (Or.inr ⟨o, e, rfl, hr, by simp⟩)
    all_goals simp_all [Label.thread]
  · rw [h.frame_of_ne ht] at hu
    exact Or.inl hu

theorem Step.builds_of_frame (h : Step s l s') {u : Thread} {r : RecvId}
    (hu : (s'.frame u).builds r) :
    (s.frame u).builds r ∨ r = s.next ∧ l.thread = some u ∧ s'.next = s.next + 1  := by
  by_cases ht : l.thread = some u
  · cases h <;> simp_all [Label.thread]
  · rw [h.frame_of_ne ht] at hu
    exact Or.inl hu

/-- An entry of a registry was there before the step, or the step is its `emplace`. -/
theorem Step.registered_of (h : Step s l s') {o : ObjId} {e : String} {r : RecvId}
    (hr : s'.Registered o e r) :
    s.Registered o e r ∨ ∃ t, s.frame t = .emplace o e r ∧ (∀ q, ¬ (s'.frame t).holds q) ∧
      ∀ q, ¬ s.Registered o e q := by
  have hm := h.reg_move o e
  rw [hr] at hm
  generalize hx : some r = x at hm
  cases hm with
  | same => exact Or.inl hx.symm
  | @inserted t q hf hnone hf' =>
    cases hx
    refine Or.inr ⟨t, hf, by simp [hf'], fun q hq => ?_⟩
    rw [State.Registered, hnone] at hq
    cases hq
  | erased | cleared => cases hx

end Step

namespace Life

variable {s s' : State} {l : Label}

theorem fresh_step (hs : Life s) (h : Step s l s') : ∀ r, s'.next ≤ r → s'.recv r = {} := by
  intro r hr
  have hle : s.next ≤ r := le_trans h.next_le hr
  have hold := hs.fresh r hle
  have hno : ∀ t, (s.frame t).recv ≠ some r := fun t ht => Nat.not_lt.2 hle (hs.frame_lt t r ht)
  have hm := h.recv_move r
  generalize s'.recv r = R at hm
  cases hm with
  | same => exact hold
  | work hw => exact absurd (by rw [hold]) hw.pc_ne.1
  | lost => rw [hold]
  | opened hf | named hf | activated hf | spawned hf | joined hf | destroyed hf
  | joinDestroyed hf => exact absurd (by rw [hf]; rfl) (hno _)
  | deactivated hf => exact absurd (Frame.recv_of_clears hf) (hno _)
  | closed hf | closeThrew hf => exact absurd (Frame.recv_of_closes hf) (hno _)

theorem frame_lt_step (hs : Life s) (h : Step s l s') :
    ∀ t r, (s'.frame t).recv = some r → r < s'.next := by
  intro t r ht
  rcases h.recv_of_frame ht with hold | ⟨-, rfl, -, hn⟩ | ⟨-, -, o, e, hreg⟩
  · exact Nat.lt_of_lt_of_le (hs.frame_lt t r hold) h.next_le
  · exact hn ▸ Nat.lt_succ_self _
  · exact Nat.lt_of_lt_of_le (hs.reg_lt o e r hreg) h.next_le

theorem reg_lt_step (hs : Life s) (h : Step s l s') :
    ∀ o e r, s'.Registered o e r → r < s'.next := by
  intro o e r hr
  refine Nat.lt_of_lt_of_le ?_ h.next_le
  rcases h.registered_of hr with hr | ⟨t, ht, -⟩
  · exact hs.reg_lt o e r hr
  · exact hs.frame_lt t r (by rw [ht]; rfl)

theorem builds_unique_step (hs : Life s) (h : Step s l s') :
    ∀ t u r, (s'.frame t).builds r → (s'.frame u).recv = some r → u = t := by
  intro t u r ht hu
  rcases h.builds_of_frame ht with ht | ⟨rfl, ht, hn⟩
  · have hlt := hs.frame_lt t r (Frame.recv_of_builds ht)
    rcases h.recv_of_frame hu with hu | ⟨-, rfl, -, -⟩ | ⟨-, -, o, e, hreg⟩
    · exact hs.builds_unique t u r ht hu
    · exact absurd hlt (lt_irrefl _)
    · exact absurd hreg (hs.holds_unreg t o e r (Frame.holds_of_builds ht))
  · rcases h.recv_of_frame hu with hu | ⟨-, -, hu, -⟩ | ⟨-, -, o, e, hreg⟩
    · exact absurd (hs.frame_lt u _ hu) (lt_irrefl _)
    · exact Option.some.inj (hu.symm.trans ht)
    · exact absurd (hs.reg_lt o e _ hreg) (lt_irrefl _)

theorem holds_unique_step (hs : Life s) (h : Step s l s') :
    ∀ t u r, (s'.frame t).holds r → (s'.frame u).holds r → u = t := by
  intro t u r ht' hu'
  rcases h.holds_of_frame ht' with ht | ⟨rfl, ht⟩ | ⟨o, e, ht, hr, -⟩
  · rcases h.holds_of_frame hu' with hu | ⟨rfl, -⟩ | ⟨o, e, -, hr, -⟩
    · exact hs.holds_unique t u r ht hu
    · exact absurd (hs.frame_lt t _ (Frame.recv_of_holds ht)) (lt_irrefl _)
    · exact absurd hr (hs.holds_unreg t o e r ht)
  · rcases h.holds_of_frame hu' with hu | ⟨-, hu⟩ | ⟨o, e, -, hr, -⟩
    · exact absurd (hs.frame_lt u _ (Frame.recv_of_holds hu)) (lt_irrefl _)
    · exact Option.some.inj (hu.symm.trans ht)
    · exact absurd (hs.reg_lt o e _ hr) (lt_irrefl _)
  · rcases h.holds_of_frame hu' with hu | ⟨rfl, -⟩ | ⟨_, _, hu, -⟩
    · exact absurd hr (hs.holds_unreg u o e r hu)
    · exact absurd (hs.reg_lt o e _ hr) (lt_irrefl _)
    · exact Option.some.inj (hu.symm.trans ht)

theorem holds_unreg_step (hs : Life s) (h : Step s l s') :
    ∀ t o e r, (s'.frame t).holds r → ¬ s'.Registered o e r := by
  intro t o e r ht hr
  rcases h.registered_of hr with hr | ⟨u, hu, hu', -⟩
  · rcases h.holds_of_frame ht with ht | ⟨rfl, -⟩ | ⟨p, f, -, hpf, hnone⟩
    · exact hs.holds_unreg t o e r ht hr
    · exact lt_irrefl _ (hs.reg_lt o e _ hr)
    · obtain ⟨rfl, rfl⟩ := hs.reg_inj _ _ _ _ r hr hpf
      simp_all [State.Registered]
  · have hold : (s.frame u).holds r := by simp [hu]
    rcases h.holds_of_frame ht with ht | ⟨rfl, -⟩ | ⟨p, f, -, hpf, -⟩
    · exact hu' r (hs.holds_unique t u r ht hold ▸ ‹(s'.frame t).holds r›)
    · exact lt_irrefl _ (hs.frame_lt u _ (Frame.recv_of_holds hold))
    · exact hs.holds_unreg u p f r hold hpf

theorem reg_inj_step (hs : Life s) (h : Step s l s') :
    ∀ o e p f r, s'.Registered o e r → s'.Registered p f r → o = p ∧ e = f := by
  intro o e p f r hr hq
  rcases h.registered_of hr with hr | ⟨t, ht, -⟩
  · rcases h.registered_of hq with hq | ⟨u, hu, -⟩
    · exact hs.reg_inj o e p f r hr hq
    · exact absurd hr (hs.holds_unreg u o e r (by simp [hu]))
  · rcases h.registered_of hq with hq | ⟨u, hu, -⟩
    · exact absurd hq (hs.holds_unreg t p f r (by simp [ht]))
    · obtain rfl := hs.holds_unique t u r (by simp [ht]) (by simp [hu])
      rw [ht] at hu
      cases hu
      exact ⟨rfl, rfl⟩

theorem step (hs : Life s) (h : Step s l s') : Life s' where
  fresh := hs.fresh_step h
  frame_lt := hs.frame_lt_step h
  reg_lt := hs.reg_lt_step h
  builds_unique := hs.builds_unique_step h
  holds_unique := hs.holds_unique_step h
  holds_unreg := hs.holds_unreg_step h
  reg_inj := hs.reg_inj_step h

theorem init : Life State.init where
  fresh _ _ := rfl
  frame_lt _ _ h := by cases h
  reg_lt _ _ _ h := by cases h
  builds_unique _ _ _ h := by cases h
  holds_unique _ _ _ h := by cases h
  holds_unreg _ _ _ _ h := by cases h
  reg_inj _ _ _ _ _ h := by cases h

end Life
/-! ### Flags and threads -/

/-- The thread handle of a receiver agrees with its worker. -/
structure Receiver.Wf (R : Receiver) : Prop where
  unborn_iff : R.pc = .unborn ↔ R.thread = .none
  exited_of_joined : R.thread = .joined → R.pc = .exited

/-- What is known about the flag and the thread of a receiver at each place. -/
structure Born (s : State) : Prop where
  wf : ∀ r, (s.recv r).Wf
  start_thread : ∀ t pc o e r, s.frame t = .start pc o e r → (s.recv r).thread = .none
  start_active : ∀ t pc o e r, s.frame t = .start pc o e r → pc ≠ .handler →
    ((s.recv r).mReceivingActive = true ↔ pc = .createThread)
  emplace_thread : ∀ t o e r, s.frame t = .emplace o e r → (s.recv r).thread ≠ .none
  emplace_active : ∀ t o e r, s.frame t = .emplace o e r → (s.recv r).mReceivingActive = true
  stop_thread : ∀ t pc k r, s.frame t = .stop pc k r → (s.recv r).thread ≠ .none
  reg_thread : ∀ o e r, s.Registered o e r → (s.recv r).thread ≠ .none
  stop_inactive : ∀ t pc k r, s.frame t = .stop pc k r → pc.pastFlag = true →
    (s.recv r).mReceivingActive = false
  dtor_inactive : ∀ t pc k r, s.frame t = .dtor pc k r → pc.pastFlag = true →
    (s.recv r).mReceivingActive = false

theorem WorkStep.wf {R R' : Receiver} {a : WorkerAct} (hw : R.Wf) (h : WorkStep R a R') :
    R'.Wf := by
  obtain ⟨-, -, hthread, -⟩ := h.keeps
  obtain ⟨hpc, hpc', hexit⟩ := h.pc_ne
  constructor
  · rw [hthread]
    exact iff_of_false hpc' fun hn => hpc (hw.unborn_iff.2 hn)
  · rw [hthread]
    exact fun hj => absurd (hw.exited_of_joined hj) hexit

section Step

variable {s s' : State} {l : Label}

theorem Step.wf (hb : Born s) (h : Step s l s') (r : RecvId) : (s'.recv r).Wf := by
  have hw := hb.wf r
  have hm := h.recv_move r
  generalize s'.recv r = R at hm
  cases hm with
  | work hwork => exact hwork.wf hw
  | spawned => constructor <;> simp
  | joined _ _ hx | joinDestroyed _ _ _ hx => constructor <;> simp [hx]
  | same | lost | opened | named | activated | deactivated | closed | closeThrew | destroyed =>
    exact ⟨hw.unborn_iff, hw.exited_of_joined⟩

/-- A thread handle stays in use. -/
theorem Step.thread_ne_none (h : Step s l s') {r : RecvId} (hr : (s.recv r).thread ≠ .none) :
    (s'.recv r).thread ≠ .none := by
  have hm := h.recv_move r
  generalize s'.recv r = R at hm
  cases hm with
  | work hw =>
    rw [hw.keeps.2.2.1]
    exact hr
  | spawned | joined | joinDestroyed => simp
  | same | lost | opened | named | activated | deactivated | closed | closeThrew | destroyed =>
    exact hr

/-- Only the worker moves, once `receiveMessages` has created it, and only while it executes no
operation. -/
theorem Step.pc_cases (h : Step s l s') (hb : Born s) (r : RecvId) :
    (s'.recv r).pc = (s.recv r).pc ∨
      (∃ a last, l = .work r a ∧ s.frame (.worker r) = .idle last ∧
        WorkStep (s.recv r) a (s'.recv r)) ∨
      (s.recv r).pc = .unborn ∧ (s'.recv r).pc = .test := by
  by_cases hl : ∃ a, l = .work r a
  · obtain ⟨a, rfl⟩ := hl
    have hw := h.work_step
    cases h with
    | work hf => exact Or.inr (Or.inl ⟨a, _, rfl, hf, hw⟩)
  · have hm := h.recv_move r
    generalize s'.recv r = R at hm
    cases hm with
    | work => exact absurd ⟨_, rfl⟩ hl
    | spawned hf =>
      exact Or.inr (Or.inr ⟨(hb.wf r).unborn_iff.2 (hb.start_thread _ _ _ _ _ hf), rfl⟩)
    | same | lost | opened | named | activated | deactivated | closed | closeThrew | joined
    | destroyed | joinDestroyed => exact Or.inl rfl

/-- Only `receiveMessages` sets `mReceivingActive`. -/
theorem Step.inactive (h : Step s l s') {r : RecvId} (hr : (s.recv r).mReceivingActive = false) :
    (s'.recv r).mReceivingActive = false ∨ ∃ t o e, s.frame t = .start .createReceiver o e r := by
  have hm := h.recv_move r
  generalize s'.recv r = R at hm
  cases hm with
  | work hw =>
    rw [hw.keeps.2.1]
    exact Or.inl hr
  | activated hf => exact Or.inr ⟨_, _, _, hf⟩
  | deactivated => exact Or.inl rfl
  | same | lost | opened | named | spawned | closed | closeThrew | joined | destroyed
  | joinDestroyed => exact Or.inl hr

/-- Once the thread exists, `mReceivingActive` is never set again. -/
theorem Step.inactive_of_thread (h : Step s l s') (hb : Born s) {r : RecvId}
    (hthread : (s.recv r).thread ≠ .none) (hr : (s.recv r).mReceivingActive = false) :
    (s'.recv r).mReceivingActive = false := by
  rcases h.inactive hr with hr | ⟨t, o, e, ht⟩
  · exact hr
  · exact absurd (hb.start_thread t _ o e r ht) hthread

/-- The flag of a running receiver is cleared by an operation that is about to close its
connection. -/
theorem Step.stopped_of (h : Step s l s') (hb : Born s) {r : RecvId}
    (hthread : (s'.recv r).thread ≠ .none) (hflag : (s'.recv r).mReceivingActive = false) :
    ((s.recv r).thread ≠ .none ∧ (s.recv r).mReceivingActive = false) ∨
      ∃ t, (s'.frame t).closes r := by
  have hm := h.recv_move r
  generalize s'.recv r = R at hm hthread hflag
  cases hm with
  | work hw =>
    obtain ⟨-, hflag', hthread', -⟩ := hw.keeps
    exact Or.inl ⟨hthread' ▸ hthread, hflag' ▸ hflag⟩
  | opened hf | named hf | activated hf => exact absurd (hb.start_thread _ _ _ _ _ hf) hthread
  | spawned hf =>
    have hactive := (hb.start_active _ _ _ _ _ hf (by simp)).2 rfl
    simp [hactive] at hflag
  | deactivated _ hf' => exact Or.inr ⟨_, hf'⟩
  | joined _ hj | joinDestroyed _ _ hj => exact Or.inl ⟨by simp [hj], hflag⟩
  | same | lost | closed | closeThrew | destroyed => exact Or.inl ⟨hthread, hflag⟩

/-- A step that no operation on the receiver takes is a step of its worker, or the loss of its
connection, or leaves it alone. -/
theorem Step.recv_of_alone (h : Step s l s') {r : RecvId}
    (hr : ∀ u, (s.frame u).recv = some r → l.thread ≠ some u) :
    s'.recv r = s.recv r ∨ s'.recv r = { s.recv r with isOpen := false } ∨
      ∃ a, l = .work r a ∧ WorkStep (s.recv r) a (s'.recv r) := by
  have hm := h.recv_move r
  generalize s'.recv r = R at hm ⊢
  cases hm with
  | same => exact Or.inl rfl
  | lost => exact Or.inr (Or.inl rfl)
  | work hw => exact Or.inr (Or.inr ⟨_, rfl, hw⟩)
  | opened hf | named hf | activated hf | spawned hf | joined hf | destroyed hf
  | joinDestroyed hf => exact absurd rfl (hr _ (by rw [hf]; rfl))
  | deactivated hf => exact absurd rfl (hr _ (Frame.recv_of_clears hf))
  | closed hf | closeThrew hf => exact absurd rfl (hr _ (Frame.recv_of_closes hf))

/-- Such a step changes neither the flag nor the thread handle. -/
theorem Step.flags_of_alone (h : Step s l s') {r : RecvId}
    (hr : ∀ u, (s.frame u).recv = some r → l.thread ≠ some u) :
    (s'.recv r).mReceivingActive = (s.recv r).mReceivingActive ∧
      (s'.recv r).thread = (s.recv r).thread := by
  rcases h.recv_of_alone hr with heq | heq | ⟨a, -, hw⟩
  · rw [heq]
    exact ⟨rfl, rfl⟩
  · rw [heq]
    exact ⟨rfl, rfl⟩
  · obtain ⟨-, hflag, hthread, -⟩ := hw.keeps
    exact ⟨hflag, hthread⟩

/-- Only its builder changes the flag and the thread handle of a receiver being built. -/
theorem Step.flags_of_builds (h : Step s l s') (hs : Life s) {t : Thread} {r : RecvId}
    (ht : (s.frame t).builds r) (hne : l.thread ≠ some t) :
    (s'.recv r).mReceivingActive = (s.recv r).mReceivingActive ∧
      (s'.recv r).thread = (s.recv r).thread :=
  h.flags_of_alone fun u hu => hs.builds_unique t u r ht hu ▸ hne

end Step

namespace Born

variable {s s' : State} {l : Label}

theorem start_thread_step (hb : Born s) (hs : Life s) (h : Step s l s') :
    ∀ t pc o e r, s'.frame t = .start pc o e r → (s'.recv r).thread = .none := by
  intro t pc o e r ht
  by_cases hl : l.thread = some t
  · have hold := hb.start_thread t
    have hnew := hs.fresh s.next le_rfl
    cases h <;> simp_all [Label.thread]
  · rw [h.frame_of_ne hl] at ht
    rw [(h.flags_of_builds hs (by simp [ht]) hl).2]
    exact hb.start_thread t pc o e r ht

theorem start_active_step (hb : Born s) (hs : Life s) (h : Step s l s') :
    ∀ t pc o e r, s'.frame t = .start pc o e r → pc ≠ .handler →
      ((s'.recv r).mReceivingActive = true ↔ pc = .createThread) := by
  intro t pc o e r ht hpc
  by_cases hl : l.thread = some t
  · have hold := hb.start_active t
    have hnew := hs.fresh s.next le_rfl
    cases h <;> simp_all [Label.thread]
    all_goals grind
  · rw [h.frame_of_ne hl] at ht
    rw [(h.flags_of_builds hs (by simp [ht]) hl).1]
    exact hb.start_active t pc o e r ht hpc

theorem emplace_thread_step (hb : Born s) (h : Step s l s') :
    ∀ t o e r, s'.frame t = .emplace o e r → (s'.recv r).thread ≠ .none := by
  intro t o e r ht
  by_cases hl : l.thread = some t
  · cases h <;> simp_all [Label.thread]
  · rw [h.frame_of_ne hl] at ht
    exact h.thread_ne_none (hb.emplace_thread t o e r ht)

theorem emplace_active_step (hb : Born s) (hs : Life s) (h : Step s l s') :
    ∀ t o e r, s'.frame t = .emplace o e r → (s'.recv r).mReceivingActive = true := by
  intro t o e r ht
  by_cases hl : l.thread = some t
  · have hold := hb.start_active t .createThread
    cases h <;> simp_all [Label.thread]
  · rw [h.frame_of_ne hl] at ht
    rw [(h.flags_of_builds hs (by simp [ht]) hl).1]
    exact hb.emplace_active t o e r ht

theorem stop_thread_step (hb : Born s) (h : Step s l s') :
    ∀ t pc k r, s'.frame t = .stop pc k r → (s'.recv r).thread ≠ .none := by
  intro t pc k r ht
  by_cases hl : l.thread = some t
  · refine h.thread_ne_none ?_
    have hold := hb.stop_thread t
    have hreg := hb.reg_thread
    cases h <;> simp_all [Label.thread, State.Registered]
    all_goals grind
  · rw [h.frame_of_ne hl] at ht
    exact h.thread_ne_none (hb.stop_thread t pc k r ht)

theorem reg_thread_step (hb : Born s) (h : Step s l s') :
    ∀ o e r, s'.Registered o e r → (s'.recv r).thread ≠ .none := by
  intro o e r hr
  refine h.thread_ne_none ?_
  rcases h.registered_of hr with hr | ⟨t, ht, -⟩
  · exact hb.reg_thread o e r hr
  · exact hb.emplace_thread t o e r ht

theorem stop_inactive_step (hb : Born s) (h : Step s l s') :
    ∀ t pc k r, s'.frame t = .stop pc k r → pc.pastFlag = true →
      (s'.recv r).mReceivingActive = false := by
  intro t pc k r ht hpc
  by_cases hl : l.thread = some t
  · have hold := hb.stop_inactive t
    cases h <;> simp_all [Label.thread]
    all_goals grind [Receiver.closeConnection, StopPc.pastFlag]
  · rw [h.frame_of_ne hl] at ht
    exact h.inactive_of_thread hb (hb.stop_thread t pc k r ht) (hb.stop_inactive t pc k r ht hpc)

theorem dtor_inactive_step (hb : Born s) (hs : Life s) (h : Step s l s') :
    ∀ t pc k r, s'.frame t = .dtor pc k r → pc.pastFlag = true →
      (s'.recv r).mReceivingActive = false := by
  intro t pc k r ht hpc
  by_cases hl : l.thread = some t
  · have hold := hb.dtor_inactive t
    cases h <;> simp_all [Label.thread]
    all_goals grind [Receiver.closeConnection, Receiver.closeConnectionThrow, DtorPc.pastFlag]
  · rw [h.frame_of_ne hl] at ht
    rcases h.inactive (hb.dtor_inactive t pc k r ht hpc) with hr | ⟨u, o, e, hu⟩
    · exact hr
    · -- the receiver would be under construction and under destruction
      obtain rfl := hs.builds_unique u t r (by simp [hu]) (by simp [ht])
      rw [ht] at hu
      cases hu

theorem step (hb : Born s) (hs : Life s) (h : Step s l s') : Born s' where
  wf := h.wf hb
  start_thread := hb.start_thread_step hs h
  start_active := hb.start_active_step hs h
  emplace_thread := hb.emplace_thread_step h
  emplace_active := hb.emplace_active_step hs h
  stop_thread := hb.stop_thread_step h
  reg_thread := hb.reg_thread_step h
  stop_inactive := hb.stop_inactive_step h
  dtor_inactive := hb.dtor_inactive_step hs h

theorem init : Born State.init where
  wf _ := ⟨by simp [State.init], by simp [State.init]⟩
  start_thread _ _ _ _ _ h := by cases h
  start_active _ _ _ _ _ h := by cases h
  emplace_thread _ _ _ _ h := by cases h
  emplace_active _ _ _ _ h := by cases h
  stop_thread _ _ _ _ h := by cases h
  reg_thread _ _ _ h := by cases h
  stop_inactive _ _ _ _ h := by cases h
  dtor_inactive _ _ _ _ h := by cases h

/-- Whoever waits to join the worker of a receiver has cleared its flag. -/
theorem joins_inactive (hb : Born s) {t : Thread} {r : RecvId}
    (ht : (s.frame t).joins r) : (s.recv r).mReceivingActive = false := by
  cases hf : s.frame t with
  | stop pc k q =>
    obtain ⟨rfl, rfl⟩ : pc = .join ∧ q = r := by simpa [hf] using ht
    exact hb.stop_inactive t _ k q hf rfl
  | dtor pc k q =>
    obtain ⟨rfl, rfl⟩ : pc = .join ∧ q = r := by simpa [hf] using ht
    exact hb.dtor_inactive t _ k q hf rfl
  | _ => simp [hf] at ht

end Born

/-! ### Operations that callbacks call -/

/-- A worker that executes an operation is in its callback. -/
def CallsInside (s : State) : Prop :=
  ∀ a, (∀ last, s.frame (.worker a) ≠ .idle last) → (s.recv a).pc.inCallback = true

theorem Step.inCallback {s s' : State} {l : Label} (h : Step s l s') (hb : Born s) {a : RecvId}
    (hold : (∀ last, s.frame (.worker a) ≠ .idle last) → (s.recv a).pc.inCallback = true)
    (ha : ∀ last, s'.frame (.worker a) ≠ .idle last) : (s'.recv a).pc.inCallback = true := by
  by_cases hidle : ∃ last, s.frame (.worker a) = .idle last
  · -- the callback enters an operation
    obtain ⟨last, hidle⟩ := hidle
    have hready := @State.inCallback_of_ready s a
    by_cases hl : l.thread = some (.worker a)
    · cases h <;> cases hl <;> simp_all
    · rw [h.frame_of_ne hl] at ha
      exact absurd hidle (ha last)
  · push Not at hidle
    rcases h.pc_cases hb a with hpc | ⟨_, last, -, hf, -⟩ | ⟨hpc, -⟩
    · rw [hpc]
      exact hold hidle
    · exact absurd hf (hidle last)
    · have := hold hidle
      simp [hpc, WorkerPc.inCallback] at this

theorem CallsInside.init : CallsInside State.init := fun _ ha => absurd rfl (ha none)

theorem CallsInside.step {s s' : State} {l : Label} (hc : CallsInside s) (hb : Born s)
    (h : Step s l s') : CallsInside s' := fun a => h.inCallback hb (hc a)

/-- A thread does not execute operations before it exists. -/
theorem CallsInside.ne_worker {s : State} {t : Thread} {r : RecvId} (hc : CallsInside s)
    (ht : ∀ last, s.frame t ≠ .idle last) (hr : (s.recv r).pc.inCallback = false) :
    t ≠ .worker r := by
  rintro rfl
  rw [hc r ht] at hr
  cases hr

section Reachable

variable {C : State → Label → Prop} {s : State}

/-- **The invariants hold in every reachable state.** -/
theorem life_and_born_of_reachable (h : qpid.ReachableWhere C State.init s) :
    Life s ∧ Born s :=
  h.invariant (I := fun s => Life s ∧ Born s) ⟨Life.init, Born.init⟩ fun _ _ _ hs _ hst =>
    ⟨hs.1.step (step_cases hst).2, hs.2.step hs.1 (step_cases hst).2⟩

theorem life_of_reachable (h : qpid.ReachableWhere C State.init s) : Life s :=
  (life_and_born_of_reachable h).1

theorem born_of_reachable (h : qpid.ReachableWhere C State.init s) : Born s :=
  (life_and_born_of_reachable h).2

theorem callsInside_of_reachable (h : qpid.ReachableWhere C State.init s) : CallsInside s :=
  h.invariant_of (fun _ hr => born_of_reachable hr) CallsInside.init fun _ _ _ hb hc _ hst =>
    hc.step hb (step_cases hst).2

end Reachable

end Comyno
