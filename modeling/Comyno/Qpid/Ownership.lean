import Comyno.Qpid.Life

/-!
# Ownership of a receiver

The registry and the receivers have no lock of their own.  Two operations that stop the same
exchange at the same time would use a receiver that one of them destroys, which the language
leaves undefined, so the callers must not let them overlap: this is `RaceFree`.  An application
that uses each `QPIDMessaging` object from one thread only is race free
(`raceFree_of_appOnly`), but so are runs in which threads and callbacks share an object and stop
different exchanges.

In a race-free run at most one operation works on a receiver at any time.

## Main results

* `Owned` : the invariant; `owned_of_reachable`.
* `Owned.recv_unique` : two operations never work on the same receiver.
* `Owned.registered_step` : an entry that an operation is stopping disappears only when that
  operation removes it and starts `~QPIDReceiver`.
-/

namespace Comyno

/-! ### Stopping an exchange -/

/-- `receiveStop` was called in order to stop the exchange `e` of `o`, possibly with others. -/
def StopCaller.stops (o : ObjId) (e : String) : StopCaller → Prop
  | .receiveStop p f => p = o ∧ f = e
  | .destructor p _ => p = o

/-- `~QPIDReceiver` runs inside an operation that stops all exchanges of `o`. -/
def DtorCaller.stops (o : ObjId) : DtorCaller → Prop
  | .operation _ => False
  | .clear p => p = o

/-- The operation is stopping the exchange `e` of `o`, and has not finished with its entry. -/
def Frame.stops (o : ObjId) (e : String) : Frame → Prop
  | .index p f => p = o ∧ f = e
  | .stop _ k _ => k.stops o e
  | .erase p f _ => p = o ∧ f = e
  | .dtor _ k _ => k.stops o
  | .stopAll p _ => p = o
  | .clearAll p => p = o
  | .idle _ | .construct _ _ | .start _ _ _ _ | .emplace _ _ _ => False

/-- `receiveStop` returns to an operation that relies on the entry of `e` in the registry. -/
def StopCaller.needs (o : ObjId) (e : String) : StopCaller → Prop
  | .receiveStop p f => p = o ∧ f = e
  | .destructor p todo => p = o ∧ e ∈ todo

/-- The operation relies on the entry of `e` in the registry of `o`. -/
def Frame.needs (o : ObjId) (e : String) : Frame → Prop
  | .index p f => p = o ∧ f = e
  | .stop _ k _ => k.needs o e
  | .erase p f _ => p = o ∧ f = e
  | .stopAll p todo => p = o ∧ e ∈ todo
  | .dtor _ _ _ | .clearAll _ => False
  | .idle _ | .construct _ _ | .start _ _ _ _ | .emplace _ _ _ => False

/-- The operation accesses the entry of `e` in the registry of `o`. -/
def Operation.touches (o : ObjId) (e : String) : Operation → Prop
  | .qpidReceiveMessages p f _ => p = o ∧ f = e
  | .qpidReceiveStop p f => p = o ∧ f = e
  | .destructor p => p = o

/-- The operation stops the exchange `e` of `o`. -/
def Operation.stops (o : ObjId) (e : String) : Operation → Prop
  | .qpidReceiveMessages _ _ _ => False
  | .qpidReceiveStop p f => p = o ∧ f = e
  | .destructor p => p = o

/-- No operation on an exchange begins while another thread is stopping that exchange. -/
def RaceFree (s : State) : Label → Prop
  | .call t c => ∀ o e u, c.touches o e → (s.frame u).stops o e → u = t
  | .work _ _ | .exec _ _ | .pick _ _ | .lost _ => True

attribute [simp] Frame.stops.eq_1 Frame.stops.eq_2 Frame.stops.eq_3 Frame.stops.eq_4
  Frame.stops.eq_5 Frame.stops.eq_6 Frame.stops.eq_7 Frame.stops.eq_8 Frame.stops.eq_9
  Frame.stops.eq_10
attribute [simp] Frame.needs.eq_1 Frame.needs.eq_2 Frame.needs.eq_3 Frame.needs.eq_4
  Frame.needs.eq_5 Frame.needs.eq_6 Frame.needs.eq_7 Frame.needs.eq_8 Frame.needs.eq_9
  Frame.needs.eq_10
attribute [simp] StopCaller.stops.eq_1 StopCaller.stops.eq_2 StopCaller.needs.eq_1
  StopCaller.needs.eq_2 DtorCaller.stops.eq_1 DtorCaller.stops.eq_2 Operation.touches.eq_1
  Operation.touches.eq_2 Operation.touches.eq_3

section Callers

variable (k : StopCaller) (d : DtorCaller) (st : QPIDStatus) (o : ObjId) (e : String)

@[simp] theorem StopCaller.stops_frame : (k.frame st).stops o e ↔ k.stops o e := by
  cases k <;> simp [frame]

@[simp] theorem StopCaller.needs_frame : (k.frame st).needs o e ↔ k.needs o e := by
  cases k <;> simp [frame]

@[simp] theorem DtorCaller.stops_frame : d.frame.stops o e ↔ d.stops o := by
  cases d <;> simp [frame]

@[simp] theorem DtorCaller.needs_frame : ¬ d.frame.needs o e := by
  cases d <;> simp [frame]

end Callers

theorem StopCaller.stops_of_needs {k : StopCaller} {o : ObjId} {e : String} (h : k.needs o e) :
    k.stops o e := by
  cases k with
  | receiveStop => exact h
  | destructor => exact h.1

theorem Frame.stops_of_needs {f : Frame} {o : ObjId} {e : String} (h : f.needs o e) :
    f.stops o e := by
  cases f with
  | index | erase => exact h
  | stop => exact StopCaller.stops_of_needs h
  | stopAll => exact h.1
  | _ => exact h.elim

section Step

variable {s s' : State} {l : Label}

/-- An operation is stopping an exchange after a step if it was before, or if the step is its
call. -/
theorem Step.stops_of_frame (h : Step s l s') {u : Thread} {o : ObjId} {e : String}
    (hu : (s'.frame u).stops o e) :
    (s.frame u).stops o e ∨ ∃ c, l = .call u c ∧ c.touches o e := by
  by_cases ht : l.thread = some u
  · cases h <;> simp_all [Label.thread]
  · rw [h.frame_of_ne ht] at hu
    exact Or.inl hu

/-- An operation stops an exchange until its entry is gone. -/
theorem Step.stops_cases (h : Step s l s') {t : Thread} {o : ObjId} {e : String}
    (ht : (s.frame t).stops o e) :
    (s'.frame t).stops o e ∨ (s'.activeReceivers o).lookup e = none := by
  by_cases hl : l.thread = some t
  · have hidle := @State.idle_of_ready s t
    cases h
    case clearAllDone t p hf hnil =>
      cases hl
      obtain rfl : p = o := by simpa [hf] using ht
      exact Or.inr (by simp [AList.lookup, hnil])
    all_goals simp_all [Label.thread]
    all_goals grind [Frame.stops, Registry.lookup_erase]
  · rw [h.frame_of_ne hl]
    exact Or.inl ht

/-- An operation relies on an entry after a step if it did before, or if the entry exists and the
step is its call. -/
theorem Step.needs_of_frame (h : Step s l s') {u : Thread} {o : ObjId} {e : String}
    (hu : (s'.frame u).needs o e) :
    (s.frame u).needs o e ∨ ∃ c, l = .call u c ∧ c.stops o e ∧ (∃ r, s.Registered o e r) ∧
      s'.activeReceivers = s.activeReceivers := by
  by_cases ht : l.thread = some u
  · cases h
    case callIndex t p f r _ hr =>
      cases ht
      obtain ⟨rfl, rfl⟩ : p = o ∧ f = e := by simpa using hu
      exact Or.inr ⟨_, rfl, ⟨rfl, rfl⟩, ⟨r, hr⟩, rfl⟩
    case callDestructor t p _ =>
      cases ht
      obtain ⟨rfl, he⟩ : p = o ∧ e ∈ (s.activeReceivers p).keys := by simpa using hu
      obtain ⟨r, hr⟩ := Option.isSome_iff_exists.1 (AList.lookup_isSome.2 (AList.mem_keys.2 he))
      exact Or.inr ⟨_, rfl, rfl, ⟨r, hr⟩, rfl⟩
    case pickStop t p todo f r hf _ _ =>
      cases ht
      obtain ⟨rfl, he⟩ : p = o ∧ e ∈ todo.erase f := by simpa using hu
      exact Or.inl (by simp [hf, List.mem_of_mem_erase he])
    all_goals simp_all [Label.thread]
  · rw [h.frame_of_ne ht] at hu
    exact Or.inl hu

/-- `receiveStop` begins with a receiver taken from the registry. -/
theorem Step.stop_of_frame (h : Step s l s') {u : Thread} {pc : StopPc} {k : StopCaller}
    {r : RecvId} (hu : s'.frame u = .stop pc k r) :
    (∃ pc', s.frame u = .stop pc' k r) ∨ pc = .test ∧ l.thread = some u ∧
      s'.activeReceivers = s.activeReceivers ∧ s'.recv = s.recv ∧
        ∃ o e, k.stops o e ∧ s.Registered o e r := by
  by_cases ht : l.thread = some u
  · cases h
    case index t o e q hf hr =>
      cases ht
      obtain ⟨rfl, rfl, rfl⟩ : StopPc.test = pc ∧ StopCaller.receiveStop o e = k ∧ q = r := by
        simpa using hu
      exact Or.inr ⟨rfl, rfl, rfl, rfl, o, e, by simp, hr⟩
    case pickStop t o todo e q hf he hr =>
      cases ht
      obtain ⟨rfl, rfl, rfl⟩ :
          StopPc.test = pc ∧ StopCaller.destructor o (todo.erase e) = k ∧ q = r := by
        simpa using hu
      exact Or.inr ⟨rfl, rfl, rfl, rfl, o, e, by simp, hr⟩
    all_goals simp_all [Label.thread]
  · rw [h.frame_of_ne ht] at hu
    exact Or.inl ⟨pc, hu⟩

end Step

/-- Who works on which receiver in a race-free run. -/
structure Owned (s : State) : Prop where
  /-- At most one operation is stopping an exchange. -/
  stops_unique : ∀ t u o e, (s.frame t).stops o e → (s.frame u).stops o e → u = t
  needs_reg : ∀ t o e, (s.frame t).needs o e → ∃ r, s.Registered o e r
  /-- `receiveStop` works on a receiver that is registered and being stopped. -/
  stop_reg : ∀ t pc k r, s.frame t = .stop pc k r → ∃ o e, k.stops o e ∧ s.Registered o e r
  /-- An operation that waits to join a worker joins it. -/
  join_thread : ∀ t r, (s.frame t).joins r → (s.recv r).thread = .joinable
  /-- An operation that is about to clear a flag finds it set. -/
  clear_active : ∀ t r, (s.frame t).clears r → (s.recv r).mReceivingActive = true

namespace Owned

variable {s s' : State} {l : Label}

/-- **One owner.**  Two operations never work on the same receiver. -/
theorem recv_unique (ho : Owned s) (hs : Life s) {t u : Thread} {r : RecvId}
    (ht : (s.frame t).recv = some r) (hu : (s.frame u).recv = some r) : u = t := by
  have key : ∀ v, (s.frame v).recv = some r →
      (s.frame v).holds r ∨ ∃ o e, (s.frame v).stops o e ∧ s.Registered o e r := by
    intro v hv
    cases hf : s.frame v with
    | stop pc k q =>
      rw [hf] at hv
      cases hv
      exact Or.inr (ho.stop_reg v pc k r hf)
    | start | emplace | dtor => simp_all
    | _ => simp_all
  rcases key t ht with ht | ⟨o, e, ht, hr⟩
  · rcases key u hu with hu | ⟨o, e, -, hr⟩
    · exact hs.holds_unique t u r ht hu
    · exact absurd hr (hs.holds_unreg t o e r ht)
  · rcases key u hu with hu | ⟨p, f, hu, hq⟩
    · exact absurd hr (hs.holds_unreg u o e r hu)
    · obtain ⟨rfl, rfl⟩ := hs.reg_inj o e p f r hr hq
      exact ho.stops_unique t u o e ht hu

/-- While an operation works on a receiver, no other operation changes it. -/
theorem alone (ho : Owned s) (hs : Life s) {t : Thread} {r : RecvId}
    (ht : (s.frame t).recv = some r) (hne : l.thread ≠ some t) :
    ∀ u, (s.frame u).recv = some r → l.thread ≠ some u :=
  fun _ hu => ho.recv_unique hs ht hu ▸ hne

/-- An entry that an operation is stopping disappears only when that operation removes it and
starts `~QPIDReceiver`. -/
theorem registered_step (ho : Owned s) (h : Step s l s') {t : Thread} {o : ObjId} {e : String}
    {r : RecvId} (ht : (s.frame t).stops o e) (hr : s.Registered o e r) :
    s'.Registered o e r ∨ ∃ k, s'.frame t = .dtor .test k r := by
  have hm := h.reg_move o e
  unfold State.Registered at hr ⊢
  generalize (s'.activeReceivers o).lookup e = x at hm
  cases hm with
  | same => exact Or.inl hr
  | inserted _ hnone =>
    rw [hr] at hnone
    cases hnone
  | @erased u st q hf hq hf' =>
    obtain rfl := ho.stops_unique t u o e ht (by simp [hf])
    cases hr.symm.trans hq
    exact Or.inr ⟨_, hf'⟩
  | @cleared u q hf hq hf' =>
    obtain rfl := ho.stops_unique t u o e ht (by simp [hf])
    cases hr.symm.trans hq
    exact Or.inr ⟨_, hf'⟩

theorem stops_unique_step (ho : Owned s) (hrf : RaceFree s l) (h : Step s l s') :
    ∀ t u o e, (s'.frame t).stops o e → (s'.frame u).stops o e → u = t := by
  intro t u o e ht hu
  rcases h.stops_of_frame ht with ht | ⟨c, rfl, hc⟩
  · rcases h.stops_of_frame hu with hu | ⟨c, rfl, hc⟩
    · exact ho.stops_unique t u o e ht hu
    · exact (hrf o e t hc ht).symm
  · rcases h.stops_of_frame hu with hu | ⟨c', hc', -⟩
    · exact hrf o e u hc hu
    · cases hc'
      rfl

theorem needs_reg_step (ho : Owned s) (h : Step s l s') :
    ∀ t o e, (s'.frame t).needs o e → ∃ r, s'.Registered o e r := by
  intro t o e ht
  rcases h.needs_of_frame ht with hold | ⟨-, -, -, ⟨r, hr⟩, hreg⟩
  · obtain ⟨r, hr⟩ := ho.needs_reg t o e hold
    rcases ho.registered_step h (Frame.stops_of_needs hold) hr with hr | ⟨k, hk⟩
    · exact ⟨r, hr⟩
    · simp [hk] at ht
  · exact ⟨r, by rw [State.Registered, hreg]; exact hr⟩

theorem stop_reg_step (ho : Owned s) (h : Step s l s') :
    ∀ t pc k r, s'.frame t = .stop pc k r → ∃ o e, k.stops o e ∧ s'.Registered o e r := by
  intro t pc k r ht
  rcases h.stop_of_frame ht with ⟨pc', hold⟩ | ⟨-, -, hreg, -, o, e, hk, hr⟩
  · obtain ⟨o, e, hk, hr⟩ := ho.stop_reg t pc' k r hold
    rcases ho.registered_step h (t := t) (by simpa [hold] using hk) hr with hr | ⟨d, hd⟩
    · exact ⟨o, e, hk, hr⟩
    · rw [ht] at hd
      cases hd
  · exact ⟨o, e, hk, by rw [State.Registered, hreg]; exact hr⟩

theorem join_thread_step (ho : Owned s) (hs : Life s) (h : Step s l s') :
    ∀ t r, (s'.frame t).joins r → (s'.recv r).thread = .joinable := by
  intro t r ht
  by_cases hl : l.thread = some t
  · have hold := ho.join_thread t
    cases h <;> simp_all [Label.thread]
  · rw [h.frame_of_ne hl] at ht
    rw [(h.flags_of_alone (ho.alone hs (Frame.recv_of_joins ht) hl)).2]
    exact ho.join_thread t r ht

theorem clear_active_step (ho : Owned s) (hs : Life s) (h : Step s l s') :
    ∀ t r, (s'.frame t).clears r → (s'.recv r).mReceivingActive = true := by
  intro t r ht
  by_cases hl : l.thread = some t
  · have hold := ho.clear_active t
    cases h <;> simp_all [Label.thread]
  · rw [h.frame_of_ne hl] at ht
    rw [(h.flags_of_alone (ho.alone hs (Frame.recv_of_clears ht) hl)).1]
    exact ho.clear_active t r ht

theorem step (ho : Owned s) (hs : Life s) (hrf : RaceFree s l) (h : Step s l s') : Owned s' where
  stops_unique := ho.stops_unique_step hrf h
  needs_reg := ho.needs_reg_step h
  stop_reg := ho.stop_reg_step h
  join_thread := ho.join_thread_step hs h
  clear_active := ho.clear_active_step hs h

theorem init : Owned State.init where
  stops_unique _ _ _ _ h := by cases h
  needs_reg _ _ _ h := by cases h
  stop_reg _ _ _ _ h := by cases h
  join_thread _ _ h := by cases h
  clear_active _ _ h := by cases h

/-- A thread that works on a receiver before or after its step is the only one that does, before
and after. -/
theorem only_of_step {s s' : State} {l : Label} (ho : Owned s) (hs : Life s) (ho' : Owned s')
    (hs' : Life s') (h : Step s l s') {t : Thread} {r : RecvId} (hl : l.thread = some t)
    (ht : (s.frame t).recv = some r ∨ (s'.frame t).recv = some r) :
    (∀ u, (s.frame u).recv = some r → u = t) ∧ ∀ u, (s'.frame u).recv = some r → u = t := by
  have hsame : ∀ u, u ≠ t → s'.frame u = s.frame u := fun u hu =>
    h.frame_of_ne fun hlu => hu (Option.some.inj (hlu.symm.trans hl))
  have hbefore : ∀ u, (s.frame u).recv = some r → u = t := by
    intro u hu
    by_contra hne
    rcases ht with ht | ht
    · exact hne (ho.recv_unique hs ht hu)
    · exact hne (ho'.recv_unique hs' ht (hsame u hne ▸ hu))
  refine ⟨hbefore, fun u hu => ?_⟩
  by_contra hne
  exact hne (hbefore u (hsame u hne ▸ hu))

end Owned

/-- **One owner in every race-free run.** -/
theorem owned_of_reachable {C : State → Label → Prop} (hC : ∀ s l, C s l → RaceFree s l)
    {s : State} (h : qpid.ReachableWhere C State.init s) : Owned s :=
  h.invariant_of (fun _ hr => life_of_reachable hr) Owned.init fun _ _ _ hs ho hc hst =>
    ho.step hs (hC _ _ hc) (step_cases hst).2

/-! ### One application thread for each object -/

/-- The object an operation is called on. -/
def Operation.object : Operation → ObjId
  | .qpidReceiveMessages o _ _ | .qpidReceiveStop o _ | .destructor o => o

/-- Operations on an object are called only by its application thread. -/
def AppOnly (_ : State) : Label → Prop
  | .call t c => t = .app c.object
  | .work _ _ | .exec _ _ | .pick _ _ | .lost _ => True

theorem Operation.object_of_touches {c : Operation} {o : ObjId} {e : String}
    (h : c.touches o e) : c.object = o := by
  cases c with
  | qpidReceiveMessages | qpidReceiveStop => exact h.1
  | destructor => exact h

/-- Operations that stop an exchange of `o` are executed by the application thread of `o`. -/
def AppStops (s : State) : Prop := ∀ u o e, (s.frame u).stops o e → u = .app o

theorem AppStops.init : AppStops State.init := fun _ _ _ hu => by cases hu

theorem AppStops.step {s s' : State} {l : Label} (hs : AppStops s) (hl : AppOnly s l)
    (hst : qpid.step s l = some s') : RaceFree s l ∧ AppStops s' := by
  constructor
  · cases l with
    | call t c =>
      intro o e u hce hu
      rw [hs u o e hu, ← Operation.object_of_touches hce]
      exact hl.symm
    | _ => trivial
  · intro u o e hu
    rcases (step_cases hst).2.stops_of_frame hu with hu | ⟨c, rfl, hce⟩
    · exact hs u o e hu
    · rw [← Operation.object_of_touches hce]
      exact hl

/-- **One thread for each object is race free.** -/
theorem raceFree_of_appOnly {C : State → Label → Prop} (hC : ∀ s l, C s l → AppOnly s l)
    {s : State} (h : qpid.ReachableWhere C State.init s) :
    qpid.ReachableWhere (fun s l => RaceFree s l ∧ C s l) State.init s := by
  have key : qpid.ReachableWhere (fun s l => RaceFree s l ∧ C s l) State.init s ∧ AppStops s := by
    induction h with
    | refl => exact ⟨.refl _, AppStops.init⟩
    | tail _ hst ih =>
      obtain ⟨l, hc, hst⟩ := hst
      obtain ⟨hrace, hs'⟩ := ih.2.step (hC _ _ hc) hst
      exact ⟨ih.1.tail ⟨hrace, hc⟩ hst, hs'⟩
  exact key.1

/-- A run in which each object is used by its application thread only, and every label satisfies
`C`. -/
theorem raceFree_and_of_run {C : State → Label → Prop} {s : State} {ls : List Label}
    (h : qpid.run State.init ls = some s) (happ : ∀ l ∈ ls, ∀ s, AppOnly s l)
    (hC : ∀ l ∈ ls, ∀ s, C s l) :
    qpid.ReachableWhere (fun s l => RaceFree s l ∧ C s l) State.init s :=
  have hreach : qpid.ReachableWhere (fun s l => AppOnly s l ∧ C s l) State.init s :=
    Conc.Machine.reachableWhere_of_run h
      (Conc.Machine.allSteps_of_labels fun l hl s => ⟨happ l hl s, hC l hl s⟩)
  (raceFree_of_appOnly (fun _ _ hc => hc.1) hreach).mono fun _ _ hc => ⟨hc.1, hc.2.2⟩

/-- A run in which each object is used by its application thread only. -/
theorem raceFree_of_run {s : State} {ls : List Label} (h : qpid.run State.init ls = some s)
    (happ : ∀ l ∈ ls, ∀ s, AppOnly s l) : qpid.ReachableWhere RaceFree State.init s :=
  (raceFree_and_of_run (C := fun _ _ => True) h happ fun _ _ _ => trivial).mono
    fun _ _ hc => hc.1

/-- The calls of a thread are race free while no other thread executes an operation. -/
theorem raceFree_call_of_idle {s : State} {t : Thread} (c : Operation)
    (h : ∀ u, u ≠ t → ∃ last, s.frame u = .idle last) : RaceFree s (.call t c) := by
  intro o e u _ hu
  by_contra hne
  obtain ⟨last, hidle⟩ := h u hne
  simp [hidle] at hu

/-- While only `t` executes operations, its calls are race free. -/
theorem raceFree_call_of_run {s : State} {ls : List Label} {t : Thread} (c : Operation)
    (h : qpid.run State.init ls = some s)
    (ht : ∀ l ∈ ls, l.thread = none ∨ l.thread = some t) : RaceFree s (.call t c) :=
  raceFree_call_of_idle c fun _ hu => ⟨none, frame_of_run_of_ne h ht hu⟩

/-- The same where another thread executes operations, and stops nothing at the moment. -/
theorem raceFree_call_of_two {s : State} {ls : List Label} {t u : Thread} (c : Operation)
    (h : qpid.run State.init ls = some s)
    (ht : ∀ l ∈ ls, l.thread = none ∨ l.thread = some t ∨ l.thread = some u)
    (hstops : ∀ o e, ¬ (s.frame t).stops o e) : RaceFree s (.call u c) := by
  intro o e v _ hv
  by_contra hne
  by_cases hvt : v = t
  · exact hstops o e (hvt ▸ hv)
  · have hidle : s.frame v = .idle none := by
      refine frame_of_run h fun l hl hlv => ?_
      rcases ht l hl with hnone | hlt | hlu
      · rw [hnone] at hlv
        cases hlv
      · exact hvt (Option.some.inj (hlv.symm.trans hlt))
      · exact hne (Option.some.inj (hlv.symm.trans hlu))
    simp [hidle] at hv

end Comyno
