import Comyno.Qpid.Ownership

/-!
# Exceptions that end the process

An exception that leaves `waitForMessages` or `~QPIDReceiver` ends the process by
`std::terminate`.  The loop of `waitForMessages` is in a try block, so a fault at any point of it
only takes the worker to the catch block; but the two calls of the catch block, `connectionIsOpen`
and `closeConnection`, are not protected, and neither are the calls of `~QPIDReceiver`.

The join in `~QPIDReceiver` throws when a thread joins itself.  That needs a callback that stops
the receiver on whose worker it runs; see `Comyno.Qpid.CallbackStop`.

## Main results

* `noEscape_iff` : no exception leaves `waitForMessages` or `~QPIDReceiver` in a run exactly when
  the calls of the catch block and the close of `~QPIDReceiver` return throughout the run.
* `faults_escape` : runs in which each of them throws.
-/

namespace Comyno

/-- No exception has left the thread function of a worker, or `~QPIDReceiver`. -/
def State.NoEscape (s : State) : Prop :=
  s.halted ≠ some .worker ∧ s.halted ≠ some .destructorClose ∧ s.halted ≠ some .destructorJoin

/-- Callbacks do not stop the receiver on whose worker they run, whether it is registered or about
to be. -/
def CallbacksSpareOwn (s : State) (l : Label) : Prop :=
  ∀ a c, l = .call (.worker a) c → ∀ o e, c.stops o e →
    ¬ s.Registered o e a ∧ ∀ t, s.frame t ≠ .emplace o e a

/-- The calls of the catch block of `waitForMessages` return, and so does `closeConnection` in
`~QPIDReceiver`. -/
def HandlersReturn (s : State) (l : Label) : Prop :=
  (∀ r, l ≠ .work r .isOpenThrow ∧ l ≠ .work r .closeThrow) ∧
    ∀ t, l = .exec t .throw → ∀ k r, s.frame t ≠ .dtor .close k r

/-- The steps of callers that stop each exchange from one thread at a time, and not from its own
callback. -/
def StopDiscipline (s : State) (l : Label) : Prop := RaceFree s l ∧ CallbacksSpareOwn s l

/-- No worker works on its own receiver, or is going to. -/
structure SparesOwn (s : State) : Prop where
  recv : ∀ a, (s.frame (.worker a)).recv ≠ some a
  registered : ∀ a o e, (s.frame (.worker a)).stops o e → ¬ s.Registered o e a
  emplace : ∀ a o e t, (s.frame (.worker a)).stops o e → s.frame t ≠ .emplace o e a

section Step

variable {s s' : State} {l : Label}

/-- The receiver an operation works on is one it has constructed, or one whose exchange it stops. -/
theorem Step.recv_of_stops (h : Step s l s') {t : Thread} {r : RecvId}
    (ht : (s'.frame t).recv = some r) :
    (s.frame t).recv = some r ∨ r = s.next ∧ (∃ o e, s.frame t = .construct o e) ∨
      ∃ o e, (s.frame t).stops o e ∧ s.Registered o e r := by
  by_cases hl : l.thread = some t
  · cases h with
    | index hf hr | erase hf hr | pickStop hf _ hr | pickClear hf hr =>
      cases hl
      obtain rfl := Option.some.inj (by simpa using ht)
      exact Or.inr (Or.inr ⟨_, _, by rw [hf]; simp, hr⟩)
    | _ => cases hl <;> simp_all
  · rw [h.frame_of_ne hl] at ht
    exact Or.inl ht

/-- The call that leads to an operation that stops an exchange. -/
theorem Step.stops_of_call (h : Step s l s') {t : Thread} {o : ObjId} {e : String}
    (ht : (s'.frame t).stops o e) :
    (s.frame t).stops o e ∨ ∃ c, l = .call t c ∧ c.stops o e := by
  by_cases hl : l.thread = some t
  · cases h <;> simp_all [Label.thread, Operation.stops]
  · rw [h.frame_of_ne hl] at ht
    exact Or.inl ht

/-- An operation is about to register a receiver after it has created its worker. -/
theorem Step.emplace_of_frame (h : Step s l s') {t : Thread} {o : ObjId} {e : String} {r : RecvId}
    (ht : s'.frame t = .emplace o e r) :
    s.frame t = .emplace o e r ∨ ∃ pc, s.frame t = .start pc o e r := by
  by_cases hl : l.thread = some t
  · cases h <;> simp_all [Label.thread]
  · rw [h.frame_of_ne hl] at ht
    exact Or.inl ht

namespace SparesOwn

theorem init : SparesOwn State.init where
  recv _ h := by cases h
  registered _ _ _ h := by cases h
  emplace _ _ _ _ h := by cases h

theorem step (ho : SparesOwn s) (hlife : Life s) (hb : Born s) (hc : CallsInside s)
    (hd : CallbacksSpareOwn s l) (h : Step s l s') : SparesOwn s' := by
  have hstops : ∀ a o e, (s'.frame (.worker a)).stops o e → ¬ s.Registered o e a ∧
      ∀ t, s.frame t ≠ .emplace o e a := by
    intro a o e ha
    rcases h.stops_of_call ha with hold | ⟨c, rfl, hstop⟩
    · exact ⟨ho.registered a o e hold, fun t => ho.emplace a o e t hold⟩
    · exact hd a c rfl o e hstop
  refine ⟨fun a ha => ?_, fun a o e ha hr => ?_, fun a o e t ha ht => ?_⟩
  · rcases h.recv_of_stops ha with hold | ⟨rfl, o, e, hf⟩ | ⟨o, e, hstop, hr⟩
    · exact ho.recv a hold
    · refine absurd rfl (hc.ne_worker (t := .worker s.next) (by simp [hf]) ?_)
      rw [hlife.fresh s.next le_rfl]
      rfl
    · exact ho.registered a o e hstop hr
  · rcases h.registered_of hr with hold | ⟨t, hf, -⟩
    · exact (hstops a o e ha).1 hold
    · exact (hstops a o e ha).2 t hf
  · rcases h.emplace_of_frame ht with hold | ⟨pc, hf⟩
    · exact (hstops a o e ha).2 t hold
    · -- the worker of a receiver under construction does not exist
      have hunborn : (s.recv a).pc = .unborn :=
        (hb.wf a).unborn_iff.2 (hb.start_thread t pc o e a hf)
      rcases h.stops_of_call ha with hold | ⟨c, rfl, -⟩
      · refine absurd rfl (hc.ne_worker (t := .worker a) (r := a) (fun last hidle => ?_) ?_)
        · simp [hidle] at hold
        · rw [hunborn]
          rfl
      · have hne : t ≠ .worker a := by
          rintro rfl
          simp [ht] at ha
        rw [h.frame_of_ne (u := t) fun e => hne (Option.some.inj e).symm, hf] at ht
        cases ht

end SparesOwn

/-- No join fails in `~QPIDReceiver`. -/
theorem SparesOwn.join_returns (hs : SparesOwn s) (ho : Owned s) {t : Thread} {k : DtorCaller}
    {r : RecvId} (hf : s.frame t = .dtor .join k r) :
    ¬ (t = .worker r ∨ (s.recv r).thread ≠ .joinable) := by
  rintro (rfl | hne)
  · exact hs.recv r (by rw [hf]; rfl)
  · exact hne (ho.join_thread t r (by simp [hf]))

/-- Steps that satisfy `HandlersReturn` let no exception escape. -/
theorem Step.noEscape (h : Step s l s') (hs : SparesOwn s) (ho : Owned s) (hn : s.NoEscape)
    (hl : HandlersReturn s l) : s'.NoEscape := by
  cases h with
  | @work r a =>
    have ha : a.escapes = false := by
      cases a with
      | isOpenThrow => exact absurd rfl (hl.1 r).1
      | closeThrow => exact absurd rfl (hl.1 r).2
      | _ => rfl
    simp [State.NoEscape, ha]
  | dtorCloseThrow hf => exact absurd hf (hl.2 _ rfl _ _)
  | dtorJoinThrow hf hjoin => exact absurd hjoin (hs.join_returns ho hf)
  | indexNull => simp [State.NoEscape]
  | _ => exact hn

/-- Every other step lets an exception escape. -/
theorem Step.not_noEscape (h : Step s l s') (hl : ¬ HandlersReturn s l) : ¬ s'.NoEscape := by
  have hcases : (∃ r a, l = .work r a ∧ a.escapes = true) ∨
      ∃ t k r, l = .exec t .throw ∧ s.frame t = .dtor .close k r := by
    by_contra hnot
    push Not at hnot
    refine hl ⟨fun r => ⟨fun he => ?_, fun he => ?_⟩, fun t ht k r => hnot.2 t k r ht⟩
    · exact hnot.1 r _ he rfl
    · exact hnot.1 r _ he rfl
  rcases hcases with ⟨r, a, rfl, ha⟩ | ⟨t, k, r, rfl, hf⟩
  · cases h
    simp [State.NoEscape, ha]
  · cases h with
    | dtorCloseThrow => simp [State.NoEscape]
    | _ => simp_all

end Step

/-- The invariants of callers that respect `StopDiscipline`. -/
structure Disciplined (s : State) : Prop where
  life : Life s
  born : Born s
  inside : CallsInside s
  owned : Owned s
  spares : SparesOwn s

theorem Disciplined.init : Disciplined State.init :=
  ⟨Life.init, Born.init, CallsInside.init, Owned.init, SparesOwn.init⟩

theorem Disciplined.step {s s' : State} {l : Label} (hs : Disciplined s) (hl : StopDiscipline s l)
    (h : Step s l s') : Disciplined s' where
  life := hs.life.step h
  born := hs.born.step hs.life h
  inside := hs.inside.step hs.born h
  owned := hs.owned.step hs.life hl.1 h
  spares := hs.spares.step hs.life hs.born hs.inside hl.2 h

/-- **Which faults end the process.**  Callers stop each exchange from one thread at a time, and not
from its own callback.  Then in a run of any length, with any exceptions at any point of the
workers' loops and any interleaving with the operations, no exception leaves `waitForMessages` or
`~QPIDReceiver` exactly if neither call of the catch block of `waitForMessages` throws, nor the
close in `~QPIDReceiver`. -/
theorem noEscape_iff {ls : List Label} (hls : qpid.AllSteps StopDiscipline State.init ls) :
    qpid.Always State.NoEscape State.init ls ↔ qpid.AllSteps HandlersReturn State.init ls :=
  Conc.Machine.always_iff_allSteps (J := Disciplined)
    (fun _ _ _ hs hd hst => hs.step hd (step_cases hst).2)
    (fun _ _ _ hs hn _ hc hst => (step_cases hst).2.noEscape hs.spares hs.owned hn hc)
    (fun _ _ _ _ _ _ hc hst => (step_cases hst).2.not_noEscape hc)
    Disciplined.init (by simp [State.NoEscape, State.init]) hls

/-- Application threads that use each object from one thread only are disciplined. -/
theorem stopDiscipline_of_appOnly {ls : List Label} (h : ∀ l ∈ ls, ∀ s, AppOnly s l) :
    qpid.AllSteps StopDiscipline State.init ls := by
  refine Conc.Machine.allSteps_of_invariant (I := AppStops) (D := AppOnly) ?_ AppStops.init
    (Conc.Machine.allSteps_of_labels h)
  intro s l s' hs hl hst
  obtain ⟨hrace, hs'⟩ := hs.step hl hst
  refine ⟨⟨hrace, fun a c hla => ?_⟩, hs'⟩
  rw [hla] at hl
  cases hl

/-- A worker whose fetch throws, while an application thread stops its receiver. -/
def fetchThrowLabels : List Label :=
  startLabels 0 "exchange" ++ [.work 0 .test, .call (.app 0) (.qpidReceiveStop 0 "exchange"),
    .work 0 .fetchThrow, .exec (.app 0) .ok, .exec (.app 0) .ok, .exec (.app 0) .ok,
    .work 0 .isOpen]

theorem noEscape_of_fetchThrow :
    qpid.Always State.NoEscape State.init (fetchThrowLabels ++ [.exec (.app 0) .ok]) := by
  refine (noEscape_iff (stopDiscipline_of_appOnly ?_)).2 (Conc.Machine.allSteps_of_labels ?_)
  · simp [fetchThrowLabels, startLabels, AppOnly, Operation.object]
  · simp [fetchThrowLabels, startLabels, HandlersReturn]

/-- An exception of each of these calls ends the process: of `connectionIsOpen`; of
`closeConnection` in the catch block of a worker, also when a stop has closed the connection since
it was found open; and of `closeConnection` in `~QPIDReceiver`, which a `qpidReceiveMessages`
executes that could not create the worker. -/
theorem faults_escape :
    (¬ ∀ s, qpid.ReachableWhere StopDiscipline State.init s → s.NoEscape) ∧
      (∃ s, qpid.run State.init (startLabels 0 "exchange" ++
          [.work 0 .test, .work 0 .fetchThrow, .work 0 .isOpenThrow]) = some s ∧
        s.halted = some .worker) ∧
      (∃ s, qpid.run State.init (fetchThrowLabels ++ [.exec (.app 0) .ok, .work 0 .closeThrow]) =
          some s ∧ s.halted = some .worker) ∧
      ∃ s, qpid.run State.init
          (.call (.app 0) (.qpidReceiveMessages 0 "exchange" true) ::
            (List.replicate 4 (.exec (.app 0) .ok) ++ .exec (.app 0) .throw ::
              (List.replicate 3 (.exec (.app 0) .ok) ++ [.exec (.app 0) .throw]))) = some s ∧
        s.halted = some .destructorClose := by
  refine ⟨fun h => ?_, ⟨_, rfl, rfl⟩, ⟨_, rfl, rfl⟩, ⟨_, rfl, rfl⟩⟩
  have hrun : ∃ s, qpid.run State.init (startLabels 0 "exchange" ++
      [.work 0 .test, .work 0 .fetchThrow, .work 0 .isOpenThrow]) = some s ∧
        s.halted = some .worker := ⟨_, rfl, rfl⟩
  obtain ⟨s, hs, hhalt⟩ := hrun
  have hreach : qpid.ReachableWhere StopDiscipline State.init s :=
    Conc.Machine.reachableWhere_of_run hs (stopDiscipline_of_appOnly
      (by simp [startLabels, AppOnly, Operation.object]))
  exact (h s hreach).1 hhalt

end Comyno
