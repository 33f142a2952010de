import Comyno.Qpid.Life

/-!
# The lock of the receive callbacks

All receivers of the process run their callbacks under one static mutex, `QPIDReceiver::mMutex`,
which `waitForMessages` locks and unlocks by hand.  An exception thrown between the two calls
goes to the catch block, which does not unlock it.

## Main results

* `callback_unique` : at most one callback runs at a time, whatever callbacks throw.
* `receiveLock_noOrphan_iff` : the owner of the mutex is between `lock` and `unlock` throughout a
  run exactly when no callback throws in the run.
* `callback_none_of_orphaned` : after a callback has thrown, no receiver of the process ever
  enters its callback again.
-/

namespace Comyno

open Conc

/-- The mutex and its critical section. -/
def receiveLock : LockView State RecvId where
  owner s := s.mMutex
  inside s r := (s.recv r).pc.locked = true

/-- What a step of the worker of `r` does to the mutex. -/
def WorkerAct.lockAct (r : RecvId) : WorkerAct → LockAct RecvId
  | .lock => .acquire r
  | .unlock => .release r
  | .callbackThrow => .abandon r
  | .test | .fetch _ | .fetchThrow | .invoke | .callbackReturn | .acknowledge
  | .acknowledgeThrow _ | .isOpen | .isOpenThrow | .close | .closeThrow => .keep

/-- What a step does to the mutex. -/
def receiveLockAct (_ : State) : Label → LockAct RecvId
  | .work r a => a.lockAct r
  | .call _ _ | .exec _ _ | .pick _ _ | .lost _ => .keep

/-- The step is not a callback that throws. -/
def CallbacksReturn (_ : State) (l : Label) : Prop := ∀ r, l ≠ .work r .callbackThrow

theorem keepsLock_iff {s : State} {l : Label} :
    LockView.KeepsLock receiveLockAct s l ↔ CallbacksReturn s l := by
  unfold LockView.KeepsLock CallbacksReturn
  cases l with
  | work r a => cases a <;> simp [receiveLockAct, WorkerAct.lockAct]
  | _ => simp [receiveLockAct]

/-- How the steps of `waitForMessages` enter and leave the critical section. -/
theorem WorkStep.locked {R R' : Receiver} {a : WorkerAct} (h : WorkStep R a R') (r : RecvId) :
    match a.lockAct r with
    | .keep => R'.pc.locked = R.pc.locked
    | .acquire _ => R'.pc.locked = true
    | .release _ | .abandon _ => R.pc.locked = true ∧ R'.pc.locked = false := by
  cases h <;> simp_all [WorkerAct.lockAct, WorkerPc.locked]

section Step

variable {s s' : State} {l : Label}

/-- Only workers enter and leave the critical section. -/
theorem Step.locked_of_ne_work (h : Step s l s') (hb : Born s) (hl : ∀ r a, l ≠ .work r a)
    (r : RecvId) : (s'.recv r).pc.locked = (s.recv r).pc.locked := by
  rcases h.pc_cases hb r with hpc | ⟨a, -, hwork, -⟩ | ⟨hpc, hpc'⟩
  · rw [hpc]
  · exact absurd hwork (hl r a)
  · rw [hpc, hpc']
    rfl

theorem Step.mMutex_of_ne_work (h : Step s l s') (hl : ∀ r a, l ≠ .work r a) :
    s'.mMutex = s.mMutex := by
  cases h with
  | work => exact absurd rfl (hl _ _)
  | _ => rfl

/-- Every step acts on the mutex as its label says. -/
theorem Step.lock_move (h : Step s l s') (hb : Born s) :
    receiveLock.Move s s' (receiveLockAct s l) := by
  by_cases hl : ∃ r a, l = .work r a
  · obtain ⟨r, a, rfl⟩ := hl
    cases h with
    | @work _ _ last m R hf hm hw =>
      have hin := hw.locked r
      have hother : ∀ u, u ≠ r →
          (((s.setRecv r R).recv u).pc.locked = true ↔ (s.recv u).pc.locked = true) := by
        intro u hu
        rw [State.setRecv_recv, if_neg hu]
      cases a
      case lock =>
        obtain ⟨hfree, rfl⟩ : s.mMutex = none ∧ some r = m := by
          simpa [WorkerAct.mutex] using hm
        exact .acquire_of_local hother hfree rfl
          (by simp [receiveLock, show R.pc.locked = true from hin])
      case unlock =>
        cases hm
        exact .release_of_local hother hin.1 rfl (by simp [receiveLock, hin.2])
      case callbackThrow =>
        cases hm
        exact .abandon_of_local hother hin.1 rfl (by simp [receiveLock, hin.2])
      all_goals
        cases hm
        exact .keep_of_local hother rfl (by simp [receiveLock, show R.pc.locked = _ from hin])
  · push Not at hl
    have hact : receiveLockAct s l = .keep := by
      cases l with
      | work r a => exact absurd rfl (hl r a)
      | _ => rfl
    rw [hact]
    exact .keep (h.mMutex_of_ne_work hl) fun r => by
      simp only [receiveLock, h.locked_of_ne_work hb hl r]

theorem receiveLock_follows :
    receiveLock.Follows qpid (fun s => Life s ∧ Born s) receiveLockAct := by
  intro s l s' ⟨hs, hb⟩ hst
  have h := (step_cases hst).2
  exact ⟨⟨hs.step h, hb.step hs h⟩, h.lock_move hb⟩

end Step

theorem receiveLock_held_init : receiveLock.Held State.init := fun _ h => by cases h

theorem receiveLock_noOrphan_init : receiveLock.NoOrphan State.init := fun _ h => by cases h

section Reachable

variable {C : State → Label → Prop} {s s' : State}

/-- A worker inside the critical section owns the mutex. -/
theorem receiveLock_held (h : qpid.ReachableWhere C State.init s) : receiveLock.Held s :=
  receiveLock_follows.held_of_reachable h ⟨Life.init, Born.init⟩ receiveLock_held_init

/-- **At most one callback of the process runs at a time.** -/
theorem callback_unique (h : qpid.ReachableWhere C State.init s) {r q : RecvId}
    (hr : (s.recv r).pc.inCallback = true) (hq : (s.recv q).pc.inCallback = true) : r = q :=
  (receiveLock_held h).unique (WorkerPc.locked_of_inCallback hr) (WorkerPc.locked_of_inCallback hq)

/-- **An orphaned mutex stops every receiver of the process**: no worker ever gets to its
callback again. -/
theorem callback_none_of_orphaned (h : qpid.ReachableWhere C State.init s) {r : RecvId}
    (ho : receiveLock.Orphaned s r) (h' : qpid.ReachableWhere C s s') (q : RecvId) :
    (s'.recv q).pc.inCallback = false := by
  have ho' := receiveLock_follows.orphaned_of_reachable h'
    (life_and_born_of_reachable h) (receiveLock_held h) ho
  refine eq_false_of_ne_true fun hq => ?_
  exact ho'.not_inside (receiveLock_held (h.trans h')) q (WorkerPc.locked_of_inCallback hq)

end Reachable

/-- **The mutex is never orphaned in a run exactly when no callback throws in the run.** -/
theorem receiveLock_noOrphan_iff (ls : List Label) :
    qpid.Always receiveLock.NoOrphan State.init ls ↔
      qpid.AllSteps CallbacksReturn State.init ls := by
  rw [receiveLock_follows.always_noOrphan_iff ⟨Life.init, Born.init⟩ receiveLock_held_init
    receiveLock_noOrphan_init]
  simp only [funext fun s => funext fun l => propext (@keepsLock_iff s l)]

/-- One callback that throws orphans the mutex. -/
theorem receiveLock_orphaned_by_callback :
    ¬ ∀ s, qpid.Reachable State.init s → receiveLock.NoOrphan s := by
  intro h
  have hrun : ∃ s, qpid.run State.init (startLabels 0 "exchange" ++
      [.work 0 .test, .work 0 (.fetch ⟨"message", ⟨"reply"⟩⟩), .work 0 .lock, .work 0 .invoke,
        .work 0 .callbackThrow]) = some s ∧ s.mMutex = some 0 ∧ (s.recv 0).pc = .handler :=
    ⟨_, rfl, rfl, rfl⟩
  obtain ⟨s, hs, hown, hpc⟩ := hrun
  have hin := h s (Machine.reachable_of_run hs) 0 hown
  simp [receiveLock, hpc, WorkerPc.locked] at hin

end Comyno
