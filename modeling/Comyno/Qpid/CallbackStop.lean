import Comyno.Qpid.Sender

/-!
# Stopping an exchange from inside a callback

A callback runs on the worker of its own exchange, with the process-wide mutex locked.  If it
calls `qpidReceiveStop`, the join inside can go wrong in two ways.  The worker of the exchange
being stopped may be waiting for the mutex, so that the two workers wait for each other; or it
may be the worker that runs the callback.  A thread that joins itself gets an exception, which
`receiveStop` catches, but the same join follows in `~QPIDReceiver`, where the exception ends the
process.

The same join is reached in two other ways: by `~QPIDMessaging`, and by a `qpidReceiveMessages`
whose exchange another thread has registered meanwhile, which destroys the receiver it has just
started.

## Main results

* `callback_stop_terminates`, `callback_stop_deadlocks` : runs that end in these two ways.
* `callback_start_deadlocks` : the deadlock of a callback that only starts an exchange.
* `callbackSafe_of_reachable` : neither happens in race-free runs in which the workers of the
  receivers that callbacks stop or destroy have left their loops.
-/

namespace Comyno

/-- No worker waits to join a worker that waits for the mutex it holds, and no join has failed in
`~QPIDReceiver`. -/
def State.CallbackSafe (s : State) : Prop :=
  (∀ a b m, (s.frame (.worker a)).joins b → (s.recv b).pc = .lock m → s.mMutex ≠ some a) ∧
    s.halted ≠ some .destructorJoin

/-- Callbacks stop and destroy only receivers whose worker has left its loop. -/
structure CallbacksStopLeft (s : State) (l : Label) : Prop where
  /-- A callback stops an exchange that is not registered, or whose worker has left its loop. -/
  stops : ∀ a c, l = .call (.worker a) c → ∀ o e r, c.stops o e → s.Registered o e r →
    (s.recv r).pc.left = true
  /-- The same of a receiver that was registered while a callback destroys the object. -/
  clears : ∀ a o e r, l = .pick (.worker a) e → s.frame (.worker a) = .clearAll o →
    s.Registered o e r → (s.recv r).pc.left = true
  /-- No other thread has registered the exchange that a callback starts, or the worker that the
  callback has created for it has left its loop. -/
  starts : ∀ a o e q r, l = .exec (.worker a) .ok → s.frame (.worker a) = .emplace o e r →
    s.Registered o e q → (s.recv r).pc.left = true

/-- What is known about the operations that callbacks execute. -/
structure CalmCallbacks (s : State) : Prop where
  /-- A receiver that a callback does not build has no worker in its loop. -/
  left_recv : ∀ a r, (s.frame (.worker a)).recv = some r → ¬ (s.frame (.worker a)).builds r →
    (s.recv r).pc.left = true ∨ (s.recv r).thread = .none
  left_needs : ∀ a o e r, (s.frame (.worker a)).needs o e → s.Registered o e r →
    (s.recv r).pc.left = true

section Step

variable {s s' : State} {l : Label}

theorem WorkStep.left {R R' : Receiver} {a : WorkerAct} (h : WorkStep R a R')
    (hpc : R.pc.left = true) : R'.pc.left = true := by
  cases h <;> simp_all [WorkerPc.left]

/-- A worker that has left its loop does not enter it again. -/
theorem Step.left (h : Step s l s') (hb : Born s) {r : RecvId} (hr : (s.recv r).pc.left = true) :
    (s'.recv r).pc.left = true := by
  rcases h.pc_cases hb r with hpc | ⟨a, -, -, -, hw⟩ | ⟨hpc, -⟩
  · rw [hpc]
    exact hr
  · exact hw.left hr
  · simp [hpc, WorkerPc.left] at hr

/-- The worker of an exchange that an operation relies on has left its loop if it had before. -/
theorem Step.left_of_needs (h : Step s l s') (hb : Born s) (ho : Owned s) {t : Thread} {o : ObjId}
    {e : String} (ht : (s.frame t).needs o e)
    (hleft : ∀ r, s.Registered o e r → (s.recv r).pc.left = true) :
    ∀ r, s'.Registered o e r → (s'.recv r).pc.left = true := by
  intro r hr
  rcases h.registered_of hr with hold | ⟨-, -, -, hnone⟩
  · exact h.left hb (hleft r hold)
  · obtain ⟨q, hq⟩ := ho.needs_reg t o e ht
    exact absurd hq (hnone q)

/-- Where a receiver that an operation stops or destroys comes from. -/
theorem Step.recv_of_not_builds (h : Step s l s') {t : Thread} {r : RecvId}
    (ht : (s'.frame t).recv = some r) (hbuilds : ¬ (s'.frame t).builds r) :
    (s.frame t).recv = some r ∧ ¬ (s.frame t).builds r ∨
      (∃ o e, s.frame t = .start .handler o e r ∧ (s'.recv r).thread = (s.recv r).thread) ∨
      (∃ o e q, l = .exec t .ok ∧ s.frame t = .emplace o e r ∧ s.Registered o e q) ∨
      (∃ o e, (s.frame t).needs o e ∧ s.Registered o e r) ∨
      ∃ o e, l = .pick t e ∧ s.frame t = .clearAll o ∧ s.Registered o e r := by
  by_cases hl : l.thread = some t
  · cases h with
    | pickStop hf he hr =>
      cases hl
      obtain rfl := Option.some.inj (by simpa using ht)
      exact Or.inr (Or.inr (Or.inr (Or.inl ⟨_, _, by simp [hf, he], hr⟩)))
    | _ => cases hl <;> simp_all [State.Registered, Receiver.closeConnection,
        Receiver.closeConnectionThrow]
  · rw [h.frame_of_ne hl] at ht hbuilds
    exact Or.inl ⟨ht, hbuilds⟩

/-- A receiver without a thread gets one only from the operation that builds it. -/
theorem Step.thread_none (h : Step s l s') (hs : Life s) {t : Thread} {r : RecvId}
    (ht : (s.frame t).recv = some r) (hbuilds : ¬ (s.frame t).builds r)
    (hr : (s.recv r).thread = .none) : (s'.recv r).thread = .none := by
  have hm := h.recv_move r
  generalize s'.recv r = R at hm
  cases hm with
  | work hw => rw [hw.keeps.2.2.1]; exact hr
  | spawned hf =>
    obtain rfl := hs.builds_unique _ t r (by rw [hf]; simp) ht
    exact absurd (by rw [hf]; simp) hbuilds
  | joined _ hj | joinDestroyed _ _ hj =>
    rw [hr] at hj
    cases hj
  | _ => exact hr

theorem CalmCallbacks.step (hc : CalmCallbacks s) (hs : Life s) (hb : Born s) (ho : Owned s)
    (hcs : CallbacksStopLeft s l) (h : Step s l s') : CalmCallbacks s' := by
  refine ⟨fun a r hr hbuilds => ?_, fun a o e r hneeds hr => ?_⟩
  · have left : (s.recv r).pc.left = true → (s'.recv r).pc.left = true ∨
        (s'.recv r).thread = .none := fun hleft => Or.inl (h.left hb hleft)
    rcases h.recv_of_not_builds hr hbuilds with ⟨hold, hnot⟩ | ⟨o, e, hf, hkeep⟩ |
      ⟨o, e, q, hl, hf, hq⟩ | ⟨o, e, hneeds, hreg⟩ | ⟨o, e, hl, hf, hreg⟩
    · rcases hc.left_recv a r hold hnot with hleft | hnone
      · exact left hleft
      · exact Or.inr (h.thread_none hs hold hnot hnone)
    · exact Or.inr (hkeep.trans (hb.start_thread _ _ o e r hf))
    · exact left (hcs.starts a o e q r hl hf hq)
    · exact left (hc.left_needs a o e r hneeds hreg)
    · exact left (hcs.clears a o e r hl hf hreg)
  · rcases h.needs_of_frame hneeds with hold | ⟨c, rfl, hstops, -, hreg⟩
    · exact h.left_of_needs hb ho hold (fun r hr => hc.left_needs a o e r hold hr) r hr
    · rw [State.Registered, hreg] at hr
      exact h.left hb (hcs.stops a c rfl o e r hstops hr)

theorem CalmCallbacks.init : CalmCallbacks State.init where
  left_recv _ _ h := by cases h
  left_needs _ _ _ _ h := by cases h

/-- The worker that a callback waits to join has left its loop. -/
theorem CalmCallbacks.left_of_joins (hc : CalmCallbacks s) (ho : Owned s) {a b : RecvId}
    (h : (s.frame (.worker a)).joins b) : (s.recv b).pc.left = true := by
  have hthread := ho.join_thread _ b h
  have hbuilds : ¬ (s.frame (.worker a)).builds b := by
    cases hf : s.frame (.worker a) <;> simp_all
  rcases hc.left_recv a b (Frame.recv_of_joins h) hbuilds with hleft | hnone
  · exact hleft
  · rw [hthread] at hnone
    cases hnone

/-- No join fails in `~QPIDReceiver`: the thread is not the worker itself, and no other thread has
joined the worker. -/
theorem CalmCallbacks.halted_ne (hc : CalmCallbacks s) (ho : Owned s) (hin : CallsInside s)
    (hh : s.halted = none) (h : Step s l s') : s'.halted ≠ some .destructorJoin := by
  cases h
  case dtorJoinThrow t k r hf hjoin =>
    rcases hjoin with rfl | hne
    · have hleft := hc.left_of_joins ho (a := r) (b := r) (by simp [hf])
      have hpc := hin r (by simp [hf])
      cases h : (s.recv r).pc <;> simp_all [WorkerPc.left, WorkerPc.inCallback]
    · exact absurd (ho.join_thread t r (by simp [hf])) hne
  case work r a _ _ _ _ _ _ => cases a.escapes <;> simp
  all_goals simp [hh]

end Step

/-- The steps of a race-free application whose callbacks stop and destroy only what has already
ended. -/
def CallbackDiscipline (s : State) (l : Label) : Prop := RaceFree s l ∧ CallbacksStopLeft s l

/-- **Stopping from inside a callback is safe** in a race-free run in which the workers of the
receivers that callbacks stop or destroy have left their loops.  Callbacks may send, and start
receivers. -/
theorem callbackSafe_of_reachable {parse : AddressParser} {p : Process}
    (h : (process parse).ReachableWhere (OfMessaging CallbackDiscipline) Process.init p) :
    p.messaging.CallbackSafe := by
  have hreach := messaging_reachableWhere h
  have hbase : ∀ s, qpid.ReachableWhere CallbackDiscipline State.init s →
      (Life s ∧ Born s) ∧ Owned s ∧ CallsInside s := fun s hr =>
    ⟨life_and_born_of_reachable hr, owned_of_reachable (fun _ _ hc => hc.1) hr,
      callsInside_of_reachable hr⟩
  have key : CalmCallbacks p.messaging ∧ p.messaging.halted ≠ some .destructorJoin := by
    refine hreach.invariant_of (J := fun s => CalmCallbacks s ∧ s.halted ≠ some .destructorJoin)
      hbase ⟨CalmCallbacks.init, by simp [State.init]⟩ fun s l s' hi hc hd hst => ?_
    obtain ⟨⟨hlife, hborn⟩, howned, hinside⟩ := hi
    obtain ⟨hh, hstep⟩ := step_cases hst
    exact ⟨hc.1.step hlife hborn howned hd.2 hstep, hc.1.halted_ne howned hinside hh hstep⟩
  refine ⟨fun a b m hjoin hpc _ => ?_, key.2⟩
  have hleft := key.1.left_of_joins (hbase _ hreach).2.1 hjoin
  simp [hpc, WorkerPc.left] at hleft

theorem callbacksStopLeft_of_thread {s : State} {l : Label}
    (h : ∀ a, l.thread ≠ some (.worker a)) : CallbacksStopLeft s l where
  stops a c hl := absurd (by rw [hl]; rfl) (h a)
  clears a o e r hl := absurd (by rw [hl]; rfl) (h a)
  starts a o e q r hl := absurd (by rw [hl]; rfl) (h a)

/-- A callback on the first exchange stops the second, whose worker has ended. -/
theorem callbackSafe_of_stopped : ∃ p s', (process plainName).ReachableWhere
      (OfMessaging CallbackDiscipline) Process.init p ∧
    qpid.step p.messaging (.call (.worker 0) (.qpidReceiveStop 0 "second")) = some s' ∧
    s'.CallbackSafe := by
  have hrun : ∃ s s', qpid.run State.init (startLabels 0 "first" ++ startLabels 0 "second" ++
      [.work 1 .test, .work 1 .fetchThrow, .work 1 .isOpen, .work 1 .close] ++
        callbackLabels 0 ⟨"message", ⟨"reply"⟩⟩) = some s ∧
      s.frame (.app 0) = .idle (some (.status .qpidSuccess)) ∧
      s.Registered 0 "second" 1 ∧ (s.recv 1).pc = .exited ∧
      qpid.step s (.call (.worker 0) (.qpidReceiveStop 0 "second")) = some s' :=
    ⟨_, _, rfl, rfl, rfl, rfl, rfl⟩
  obtain ⟨s, s', hs, hidle, hreg, hpc, hst⟩ := hrun
  have hreach : qpid.ReachableWhere CallbackDiscipline State.init s := by
    refine raceFree_and_of_run hs (by simp [startLabels, callbackLabels, AppOnly,
      Operation.object]) fun l hl s => callbacksStopLeft_of_thread fun a hla => ?_
    revert l
    simp [startLabels, callbackLabels, Label.thread]
  have hd : CallbackDiscipline s (.call (.worker 0) (.qpidReceiveStop 0 "second")) := by
    refine ⟨raceFree_call_of_two (t := .app 0) _ hs (by decide) (by simp [hidle]),
      fun a c hl o e r hstops hr => ?_, ?_, ?_⟩
    · cases hl
      obtain ⟨rfl, rfl⟩ := hstops
      cases hreg.symm.trans hr
      rw [hpc]
      rfl
    · rintro a o e r hl
      cases hl
    · rintro a o e q r hl
      cases hl
  exact ⟨_, s', process_reachableWhere plainName hreach, hst,
    callbackSafe_of_reachable (process_reachableWhere plainName (hreach.tail hd hst))⟩

/-- A callback that stops its own exchange ends the process: the join fails in `receiveStop`, and
again in `~QPIDReceiver`. -/
theorem callback_stop_terminates :
    ¬ ∀ p, (process plainName).ReachableWhere (OfMessaging RaceFree) Process.init p →
      p.messaging.CallbackSafe := by
  intro h
  have hrun : ∃ s₁ s₂ s₃, qpid.run State.init (startLabels 0 "exchange" ++
      callbackLabels 0 ⟨"message", ⟨"reply"⟩⟩) = some s₁ ∧
      s₁.frame (.app 0) = .idle (some (.status .qpidSuccess)) ∧
      qpid.step s₁ (.call (.worker 0) (.qpidReceiveStop 0 "exchange")) = some s₂ ∧
      qpid.run s₂ (List.replicate 10 (.exec (.worker 0) .ok)) = some s₃ ∧
      s₃.halted = some .destructorJoin :=
    ⟨_, _, _, rfl, rfl, rfl, rfl, rfl⟩
  obtain ⟨s₁, s₂, s₃, hs₁, hidle, hcall, hs₃, hhalt⟩ := hrun
  have h₁ : qpid.ReachableWhere RaceFree State.init s₁ :=
    raceFree_of_run hs₁ (by simp [startLabels, callbackLabels, AppOnly, Operation.object])
  have h₃ : qpid.ReachableWhere RaceFree s₂ s₃ :=
    Conc.Machine.reachableWhere_of_run hs₃ (Conc.Machine.allSteps_of_labels (by simp [RaceFree]))
  have hrf : RaceFree s₁ (.call (.worker 0) (.qpidReceiveStop 0 "exchange")) :=
    raceFree_call_of_two (t := .app 0) _ hs₁ (by decide) (by simp [hidle])
  exact (h _ (process_reachableWhere plainName ((h₁.tail hrf hcall).trans h₃))).2 hhalt

/-- A callback that stops another exchange waits for a worker that waits for the mutex. -/
theorem callback_stop_deadlocks : ∃ s, qpid.ReachableWhere RaceFree State.init s ∧
    (s.frame (.worker 0)).joins 1 ∧ (∃ m, (s.recv 1).pc = .lock m) ∧ s.mMutex = some 0 := by
  have hrun : ∃ s₁ s₂ s₃, qpid.run State.init (startLabels 0 "first" ++ startLabels 0 "second" ++
      callbackLabels 0 ⟨"message", ⟨"reply"⟩⟩ ++
        (callbackLabels 1 ⟨"message", ⟨"reply"⟩⟩).take 2) = some s₁ ∧
      s₁.frame (.app 0) = .idle (some (.status .qpidSuccess)) ∧
      qpid.step s₁ (.call (.worker 0) (.qpidReceiveStop 0 "second")) = some s₂ ∧
      qpid.run s₂ (List.replicate 5 (.exec (.worker 0) .ok)) = some s₃ ∧
      s₃.frame (.worker 0) = .stop .join (.receiveStop 0 "second") 1 ∧
      (s₃.recv 1).pc = .lock ⟨"message", ⟨"reply"⟩⟩ ∧ s₃.mMutex = some 0 :=
    ⟨_, _, _, rfl, rfl, rfl, rfl, rfl, rfl, rfl⟩
  obtain ⟨s₁, s₂, s₃, hs₁, hidle, hcall, hs₃, hf, hpc, hown⟩ := hrun
  have h₁ : qpid.ReachableWhere RaceFree State.init s₁ :=
    raceFree_of_run hs₁ (by simp [startLabels, callbackLabels, AppOnly, Operation.object])
  have h₃ : qpid.ReachableWhere RaceFree s₂ s₃ :=
    Conc.Machine.reachableWhere_of_run hs₃ (Conc.Machine.allSteps_of_labels (by simp [RaceFree]))
  have hrf : RaceFree s₁ (.call (.worker 0) (.qpidReceiveStop 0 "second")) :=
    raceFree_call_of_two (t := .app 0) _ hs₁ (by decide) (by simp [hidle])
  exact ⟨s₃, (h₁.tail hrf hcall).trans h₃, by simp [hf], ⟨_, hpc⟩, hown⟩

/-- A callback starts an exchange that the application starts too.  The application is the first to
register its receiver, and the callback waits for the worker of its own one, which waits for the
mutex. -/
theorem callback_start_deadlocks : ∃ s, qpid.ReachableWhere RaceFree State.init s ∧
    (s.frame (.worker 0)).joins 1 ∧ (∃ m, (s.recv 1).pc = .lock m) ∧ s.mMutex = some 0 := by
  have hrun : ∃ s₁ s₂ s₃ s₄ s₅, qpid.run State.init (startLabels 0 "first" ++
      callbackLabels 0 ⟨"message", ⟨"reply"⟩⟩) = some s₁ ∧
      s₁.frame (.app 0) = .idle (some (.status .qpidSuccess)) ∧
      qpid.step s₁ (.call (.worker 0) (.qpidReceiveMessages 0 "second" true)) = some s₂ ∧
      qpid.run s₂ (List.replicate 5 (.exec (.worker 0) .ok)) = some s₃ ∧
      s₃.frame (.worker 0) = .emplace 0 "second" 1 ∧
      qpid.step s₃ (.call (.app 0) (.qpidReceiveMessages 0 "second" true)) = some s₄ ∧
      qpid.run s₄ (List.replicate 6 (.exec (.app 0) .ok) ++
        (callbackLabels 1 ⟨"message", ⟨"reply"⟩⟩).take 2 ++
          List.replicate 5 (.exec (.worker 0) .ok)) = some s₅ ∧
      s₅.frame (.worker 0) = .dtor .join (.operation (.status .qpidSuccess)) 1 ∧
      (s₅.recv 1).pc = .lock ⟨"message", ⟨"reply"⟩⟩ ∧ s₅.mMutex = some 0 :=
    ⟨_, _, _, _, _, rfl, rfl, rfl, rfl, rfl, rfl, rfl, rfl, rfl, rfl⟩
  obtain ⟨s₁, s₂, s₃, s₄, s₅, hs₁, hidle, hcall, hs₃, hemplace, hcall', hs₅, hf, hpc, hown⟩ := hrun
  have h₁ : qpid.ReachableWhere RaceFree State.init s₁ :=
    raceFree_of_run hs₁ (by simp [startLabels, callbackLabels, AppOnly, Operation.object])
  have h₃ : qpid.ReachableWhere RaceFree s₂ s₃ :=
    Conc.Machine.reachableWhere_of_run hs₃ (Conc.Machine.allSteps_of_labels (by simp [RaceFree]))
  have h₅ : qpid.ReachableWhere RaceFree s₄ s₅ :=
    Conc.Machine.reachableWhere_of_run hs₅ (Conc.Machine.allSteps_of_labels
      (by simp [RaceFree, callbackLabels]))
  have hrf : RaceFree s₁ (.call (.worker 0) (.qpidReceiveMessages 0 "second" true)) :=
    raceFree_call_of_two (t := .app 0) _ hs₁ (by decide) (by simp [hidle])
  have hrf' : RaceFree s₃ (.call (.app 0) (.qpidReceiveMessages 0 "second" true)) := by
    have hrun₃ : qpid.run State.init ((startLabels 0 "first" ++
        callbackLabels 0 ⟨"message", ⟨"reply"⟩⟩) ++
        .call (.worker 0) (.qpidReceiveMessages 0 "second" true) ::
          List.replicate 5 (.exec (.worker 0) .ok)) = some s₃ := by
      rw [Conc.Machine.run_append, hs₁]
      simpa only [Option.bind_some, Conc.Machine.run_cons, hcall] using hs₃
    exact raceFree_call_of_two (t := .worker 0) _ hrun₃ (by decide) (by simp [hemplace])
  exact ⟨s₅, (((h₁.tail hrf hcall).trans h₃).tail hrf' hcall').trans h₅, by simp [hf], ⟨_, hpc⟩,
    hown⟩

end Comyno
