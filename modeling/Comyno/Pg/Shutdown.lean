import Comyno.Conc.Progress
import Comyno.Pg.Order

/-!
# The destruction of a client comes to an end

`~PGClient` stops the pool, notifies the workers and joins them.  It waits for the queue mutex, and
for each worker until the worker has executed what is left in the queue, with the callbacks of these
tasks, which may call `pgMessageQuery` on this client or on another meanwhile.  As long as callbacks
are non-empty, return and destroy no client, it never gets stuck: from every state it can come
closer to its end, whatever the other threads do (`closer_of_frame`).

The tasks that are left call the connector through `mPGConnector`, which is destroyed before `mPool`
(see `Comyno.Pg.Destruction`).  What such a call does is undefined in C++; here it returns or
throws, as any call of the connector does.

A worker of a pool that is stopped cannot miss the notification (`Winding.awake`): the pool is
stopped under the queue mutex, and a worker tests `stop` and goes to sleep without unlocking it in
between.  So it ends once the queue is empty, and the queue of a stopped pool only shrinks
(`exists_exited`).

## Main result

* `destructor_returns` : from every reachable state in which `~PGClient` executes, the process can
  go on until it has returned, and its workers have ended with no task left.
-/

namespace Comyno.Pg

open Conc

/-! ### Sleeping workers of a stopped pool -/

/-- The pool has been stopped. -/
def DtorPc.stopped : DtorPc → Bool
  | .lock | .stop => false
  | .notify | .join _ => true

/-- What `~PGClient` has achieved. -/
structure Winding (s : State) : Prop where
  stop : ∀ t pc c, s.frame t = .dtor pc c → pc.stopped = true → (s.pool c).stop = true
  awake : ∀ t todo c, s.frame t = .dtor (.join todo) c → ∀ i, (s.pc ⟨c, i⟩).sleeping = false

section Step

variable {s s' : State} {l : Label} {t : Thread} {c : ClientId} {w : Worker}

/-- A worker of a stopped pool does not fall asleep. -/
theorem Step.sleeping_of_stop (h : Step s l s') (hstop : (s.pool w.client).stop = true)
    (hw : (s.pc w).sleeping = false) : (s'.pc w).sleeping = false := by
  have hm := h.pc_move w
  generalize s'.pc w = k at hm ⊢
  cases hm with
  | same => exact hw
  | notify =>
    cases hpc : s.pc w with
    | wait => rfl
    | _ => rfl
  | loop hP =>
    cases hP with
    | wait _ _ hrun => exact absurd hstop (by simp [hrun])
    | _ => simp [LoopPc.sleeping]
  | task _ _ hk => cases hk <;> rfl

theorem Winding.init : Winding State.init :=
  ⟨fun _ _ _ h => (by cases h), fun _ _ _ h => (by cases h)⟩

theorem Winding.stop_step (hs : Winding s) (h : Step s l s') :
    ∀ t pc c, s'.frame t = .dtor pc c → pc.stopped = true → (s'.pool c).stop = true := by
  intro t pc c hf hpc
  by_cases hl : l.thread = some t
  · cases h with
    | loop | task => cases hl
    | @dtorStop _ d =>
      cases hl
      obtain ⟨-, rfl⟩ : DtorPc.notify = pc ∧ d = c := by simpa using hf
      simp
    | @dtorNotify _ d hq =>
      cases hl
      obtain ⟨-, rfl⟩ : _ ∧ d = c := by simpa using hf
      simpa [ThreadPool.notifyAll] using hs.stop _ _ _ hq rfl
    | @dtorJoin _ d _ _ hq =>
      cases hl
      obtain ⟨-, rfl⟩ : _ ∧ d = c := by simpa using hf
      exact hs.stop _ _ _ hq rfl
    | dtorJoinThrow => exact hs.stop t pc c hf hpc
    | callDestructor | dtorLock =>
      cases hl
      obtain ⟨rfl, -⟩ : _ = pc ∧ _ = c := by simpa using hf
      cases hpc
    | query _ hq =>
      cases hl
      cases hq <;> simp at hf
    | _ =>
      cases hl
      simp at hf
  · rw [h.frame_of_ne hl] at hf
    exact h.stop (hs.stop t pc c hf hpc)

theorem Winding.awake_step (hs : Winding s) (h : Step s l s') : ∀ t todo c,
    s'.frame t = .dtor (.join todo) c → ∀ i, (s'.pc ⟨c, i⟩).sleeping = false := by
  intro t todo c hf i
  have hkeep : ∀ todo', s.frame t = .dtor (.join todo') c → (s'.pc ⟨c, i⟩).sleeping = false :=
    fun todo' hq => h.sleeping_of_stop (hs.stop t _ c hq rfl) (hs.awake t todo' c hq i)
  by_cases hl : l.thread = some t
  · cases h with
    | loop | task => cases hl
    | @dtorNotify _ d hq =>
      cases hl
      obtain ⟨-, rfl⟩ : _ ∧ d = c := by simpa using hf
      have hpc : (((s.pool d).workers i).notify).sleeping = false := by
        cases (s.pool d).workers i <;> rfl
      simpa [State.setPool_pc, ThreadPool.notifyAll] using hpc
    | @dtorJoin _ d _ _ hq =>
      cases hl
      obtain ⟨-, rfl⟩ : _ ∧ d = c := by simpa using hf
      exact hkeep _ hq
    | dtorJoinThrow => exact hkeep todo hf
    | query _ hq =>
      cases hl
      cases hq <;> simp at hf
    | _ =>
      cases hl
      simp at hf
  · rw [h.frame_of_ne hl] at hf
    exact hkeep todo hf

end Step

theorem winding_of_reachable {C : State → Label → Prop} {s : State}
    (h : pg.ReachableWhere C State.init s) : Winding s :=
  h.invariant .init fun _ _ _ hs _ hst =>
    ⟨hs.stop_step (step_cases hst).2, hs.awake_step (step_cases hst).2⟩

/-! ### Workers that end -/

/-- The pool of the worker `w` is stopped, with at most `n` tasks left, and `w` does not sleep. -/
structure State.Leaving (s : State) (w : Worker) (n : ℕ) : Prop where
  stop : (s.pool w.client).stop = true
  awake : (s.pc w).sleeping = false
  length_le : (s.pool w.client).tasks.length ≤ n

section Exit

variable {s s' : State} {l : Label} {c : ClientId} {w : Worker} {n : ℕ}

/-- Nothing is queued at a pool that is stopped. -/
theorem Step.length_tasks_le (h : Step s l s') (hstop : (s.pool c).stop = true) :
    (s'.pool c).tasks.length ≤ (s.pool c).tasks.length := by
  have hm := h.tasks_move c
  generalize (s'.pool c).tasks = tasks at hm ⊢
  cases hm with
  | same => exact le_rfl
  | pushed _ _ hrun => simp [hstop] at hrun
  | taken _ hold => simp [hold]

theorem State.Leaving.step (hs : s.Leaving w n) (h : Step s l s') : s'.Leaving w n :=
  ⟨h.stop hs.stop, h.sleeping_of_stop hs.stop hs.awake,
    (h.length_tasks_le hs.stop).trans hs.length_le⟩

theorem State.Leaving.of_reachable {C : State → Label → Prop} (hs : s.Leaving w n)
    (h : pg.ReachableWhere C s s') : s'.Leaving w n :=
  h.invariant (I := fun s => s.Leaving w n) hs fun _ _ _ hs _ hst => hs.step (step_cases hst).2

/-- A worker at the queue mutex stays there until it locks the mutex. -/
theorem Step.pc_of_acquire (h : Step s l s') (hpc : s.pc w = .acquire)
    (hl : l ≠ .work w (.loop .acquire)) : s'.pc w = .acquire := by
  have hm := h.pc_move w
  generalize s'.pc w = k at hm ⊢
  cases hm with
  | same => exact hpc
  | notify =>
    rw [hpc]
    rfl
  | loop hP =>
    have hpc : (s.pool w.client).workers w.index = .acquire := hpc
    cases hP with
    | acquire => exact absurd rfl hl
    | take hck | leave hck | wait hck | wake hck | wakeSpurious hck => simp [hpc] at hck
  | task _ hx _ => simp [hpc] at hx

theorem Label.ReleasesQueue.ne_acquire (hl : l.ReleasesQueue c s) :
    l ≠ .work w (.loop .acquire) := by
  rintro rfl
  rcases hl with ⟨_, hl⟩ | ⟨_, hl, -⟩ <;> cases hl

theorem Label.ReleasesQueue.continues (hl : l.ReleasesQueue c s) : Continues s l := by
  rcases hl with ⟨_, rfl⟩ | ⟨_, rfl, -⟩ <;> rfl

/-- A worker locks the queue mutex when it is free. -/
theorem canReach_check_of_free (h : pg.ReachableWhere ProperCallbacks State.init s)
    (hpc : s.pc w = .acquire) (hfree : (s.pool w.client).queueMutex = none) :
    s.CanReach fun s' => s'.pc w = .check := by
  obtain ⟨P, hP, hpc'⟩ := ThreadPool.exists_acquire (Thread.worker w) Task.start hpc hfree
  exact .head rfl (pg_step_loop h hP) (.here (by simpa [State.setPool_pc] using hpc'))

/-- A worker at the queue mutex can lock it, once whoever holds it has released it. -/
theorem canReach_check (h : pg.ReachableWhere ProperCallbacks State.init s)
    (hpc : s.pc w = .acquire) : s.CanReach fun s' => s'.pc w = .check := by
  by_cases hfree : (s.pool w.client).queueMutex = none
  · exact canReach_check_of_free h hpc hfree
  · obtain ⟨l, s', hl, hst, hfree', -, -⟩ :=
      exists_release h (running_of_reachable (undisturbed_of_proper h)) hfree
    exact .head hl.continues hst (canReach_check_of_free (h.tail hl.continues.proper hst)
      ((step_cases hst).2.pc_of_acquire hpc hl.ne_acquire) hfree')

/-- A worker that does not sleep comes to the test of `stop` and `tasks`, if it has not ended. -/
theorem canReach_check_or_exited (h : pg.ReachableWhere ProperCallbacks State.init s)
    (hw : (s.pc w).sleeping = false) :
    s.CanReach fun s' => s'.pc w = .check ∨ s'.pc w = .exited := by
  have hacquire : ∀ {s'}, pg.ReachableWhere Continues s s' → s'.pc w = .acquire →
      s.CanReach fun s' => s'.pc w = .check ∨ s'.pc w = .exited := by
    intro s' hr hpc
    obtain ⟨s'', hr', hpc'⟩ := canReach_check (proper_trans h hr) hpc
    exact ⟨s'', hr.trans hr', Or.inl hpc'⟩
  cases hpc : s.pc w with
  | acquire => exact hacquire (.refl s) hpc
  | check => exact .here (Or.inl hpc)
  | wait notified =>
    obtain rfl : notified = true := by
      cases notified with
      | true => rfl
      | false => simp [hpc, LoopPc.sleeping] at hw
    obtain ⟨P, hP, hpc'⟩ := ThreadPool.exists_wake (Thread.worker w) Task.start hpc
    have hl : Continues s (.work w (.loop .wake)) := rfl
    exact hacquire (.head hl (pg_step_loop h hP) (.refl _))
      (by simpa [State.setPool_pc] using hpc')
  | run x =>
    obtain ⟨s', hr, hpc'⟩ := exists_ended h hpc
    exact hacquire hr hpc'
  | exited => exact .here (Or.inr hpc)

/-- A worker of a stopped pool can end, or take one of the tasks that are left. -/
theorem canReach_exited_or_take (h : pg.ReachableWhere ProperCallbacks State.init s)
    (hs : s.Leaving w n) :
    s.CanReach fun s' => s'.pc w = .exited ∨ ∃ m < n, s'.Leaving w m := by
  refine (canReach_check_or_exited h hs.awake).trans fun s' hr hs' => ?_
  rcases hs' with hpc | hpc
  · obtain ⟨P, hP, -⟩ := ThreadPool.exists_check (Thread.worker w) Task.start hpc
    have hst := pg_step_loop (proper_trans h hr) hP
    have hL := hs.of_reachable hr
    refine .head rfl hst (.here ?_)
    cases ThreadPool.loop_cases hP with
    | @take task tasks _ htasks =>
      have hlen := hL.length_le
      rw [htasks, List.length_cons] at hlen
      have hL' := hL.step (step_cases hst).2
      exact Or.inr ⟨tasks.length, hlen, hL'.stop, hL'.awake, by simp⟩
    | leave => exact Or.inl (by simp [State.setPool_pc])
    | wait _ _ hrun => exact absurd hL.stop (by simp [hrun])
  · exact .here (Or.inl hpc)

/-- **A worker of a stopped pool can end**; its rank is the number of tasks that are left. -/
theorem exists_exited (h : pg.ReachableWhere ProperCallbacks State.init s)
    (hs : s.Leaving w n) : s.CanReach fun s' => s'.pc w = .exited := by
  refine Machine.CanReach.of_rank (P := fun n s =>
    pg.ReachableWhere ProperCallbacks State.init s ∧ s.Leaving w n) (fun n s hs => ?_) ⟨h, hs⟩
  obtain ⟨s', hr, hs'⟩ := canReach_exited_or_take hs.1 hs.2
  refine ⟨s', hr, hs'.imp_right fun hm => ?_⟩
  obtain ⟨m, hm, hL⟩ := hm
  exact ⟨m, hm, proper_trans hs.1 hr, hL⟩

end Exit

/-! ### The destructor -/

/-- How many program points of `~PGClient` are left. -/
def DtorPc.left : DtorPc → ℕ
  | .lock => poolSize + 3
  | .stop => poolSize + 2
  | .notify => poolSize + 1
  | .join todo => todo.length

/-- `~PGClient` on `c`, executed by `t`, has returned, or fewer than `n` program points are left. -/
def State.Closer (s : State) (t : Thread) (c : ClientId) (n : ℕ) : Prop :=
  (s.frame t = .idle (some .destroyed) ∧ (s.client c).mDatabase = false) ∨
    ∃ pc, s.frame t = .dtor pc c ∧ pc.left < n

section Destructor

variable {s s' : State} {l : Label} {t : Thread} {c : ClientId} {pc : DtorPc}

/-- The destructor only goes on. -/
theorem Step.closer (h : Step s l s') (hf : s.frame t = .dtor pc c) :
    s'.frame t = .dtor pc c ∨ s'.Closer t c pc.left := by
  by_cases hl : l.thread = some t
  · cases h with
    | loop | task => cases hl
    | callQuery hr | callDestructor hr =>
      cases hl
      obtain ⟨last, hidle⟩ := State.idle_of_ready hr
      simp [hidle] at hf
    | query hq hqs =>
      cases hl
      rw [hf] at hq
      cases hq
    | dtorLock hq | dtorStop hq | dtorNotify hq | dtorJoin hq =>
      cases hl
      obtain ⟨rfl, rfl⟩ : _ = pc ∧ _ = c := by simpa [hf, eq_comm] using hq
      exact Or.inr (Or.inr ⟨_, State.goto_frame_self .., by simp [DtorPc.left]⟩)
    | dtorJoinThrow => exact Or.inl hf
    | dtorDone hq =>
      cases hl
      obtain ⟨rfl, rfl⟩ : _ = pc ∧ _ = c := by simpa [hf, eq_comm] using hq
      exact Or.inr (Or.inl ⟨by simp, by simp⟩)
    | _ =>
      cases hl
      simp_all
  · exact Or.inl ((h.frame_of_ne hl).trans hf)

/-- It is enough that the destructor can go on once the process has done something else. -/
theorem closer_trans (hr : pg.ReachableWhere Continues s s') (hf : s.frame t = .dtor pc c)
    (h : s'.frame t = .dtor pc c → s'.CanReach fun s' => s'.Closer t c pc.left) :
    s.CanReach fun s' => s'.Closer t c pc.left :=
  Machine.CanReach.of_keeps (I := fun s => s.frame t = .dtor pc c) hr hf
    (fun _ _ _ hs _ hst => (step_cases hst).2.closer hs) h

/-- The destructor takes its next step. -/
theorem closer_of_exec (h : pg.ReachableWhere ProperCallbacks State.init s)
    (hf : s.frame t = .dtor pc c) (hst : s.destroyClient t c pc = some s')
    (hne : s'.frame t ≠ .dtor pc c) : s.CanReach fun s' => s'.Closer t c pc.left := by
  have hstep : pg.step s (.exec t .ok) = some s' := by
    rw [pg_step_exec (running_of_reachable (undisturbed_of_proper h))]
    simp [State.exec, hf, hst]
  exact .head rfl hstep (.here (((step_cases hstep).2.closer hf).resolve_left hne))

/-- The destructor locks the queue mutex when it is free. -/
theorem closer_of_free (h : pg.ReachableWhere ProperCallbacks State.init s)
    (hf : s.frame t = .dtor .lock c) (hfree : (s.pool c).queueMutex = none) :
    s.CanReach fun s' => s'.Closer t c DtorPc.lock.left := by
  have hst : s.destroyClient t c .lock =
      some ((s.setPool c { s.pool c with queueMutex := some t }).goto t (.dtor .stop c)) := by
    simp [State.destroyClient, ThreadPool.lock_eq_some_iff.2 ⟨hfree, rfl⟩]
  exact closer_of_exec h hf hst (by simp)

/-- **The destructor can come closer to its end.** -/
theorem closer_of_frame (h : pg.ReachableWhere ProperCallbacks State.init s)
    (hf : s.frame t = .dtor pc c) : s.CanReach fun s' => s'.Closer t c pc.left := by
  cases pc with
  | lock =>
    by_cases hfree : (s.pool c).queueMutex = none
    · exact closer_of_free h hf hfree
    · obtain ⟨l, s', hl, hst, hfree', -, -⟩ :=
        exists_release h (running_of_reachable (undisturbed_of_proper h)) hfree
      exact closer_trans (.head hl.continues hst (.refl s')) hf fun hf' =>
        closer_of_free (h.tail hl.continues.proper hst) hf' hfree'
  | stop => exact closer_of_exec h hf rfl (by simp)
  | notify => exact closer_of_exec h hf rfl (by simp)
  | join todo =>
    cases todo with
    | nil => exact closer_of_exec h hf rfl (by simp)
    | cons i todo =>
      have hw := winding_of_reachable h
      have hL : s.Leaving ⟨c, i⟩ (s.pool c).tasks.length :=
        ⟨hw.stop t _ c hf rfl, hw.awake t _ c hf i, le_rfl⟩
      obtain ⟨s', hr, hpc⟩ := exists_exited h hL
      refine closer_trans hr hf fun hf' => ?_
      have h' := proper_trans h hr
      have ht : t ≠ .worker ⟨c, i⟩ := by
        rintro rfl
        exact (callable_of_reachable (undisturbed_of_proper h')).frame _ _ _ hf'
      have hst : s'.destroyClient t c (.join (i :: todo)) =
          some (s'.goto t (.dtor (.join todo) c)) := by
        simp [State.destroyClient, ht, hpc]
      exact closer_of_exec h' hf' hst (by simp)

/-- The destructor can return; its rank is the number of program points that are left. -/
theorem canReach_destroyed (h : pg.ReachableWhere ProperCallbacks State.init s)
    (hf : s.frame t = .dtor pc c) : s.CanReach fun s' =>
      s'.frame t = .idle (some .destroyed) ∧ (s'.client c).mDatabase = false := by
  refine Machine.CanReach.of_rank (P := fun n s =>
    pg.ReachableWhere ProperCallbacks State.init s ∧ ∃ pc, s.frame t = .dtor pc c ∧ pc.left = n)
    (fun n s hs => ?_) ⟨h, pc, hf, rfl⟩
  obtain ⟨h, pc, hf, rfl⟩ := hs
  obtain ⟨s', hr, hs'⟩ := closer_of_frame h hf
  refine ⟨s', hr, hs'.imp_right fun hm => ?_⟩
  obtain ⟨pc', hf', hlt⟩ := hm
  exact ⟨pc'.left, hlt, proper_trans h hr, pc', hf', rfl⟩

end Destructor

/-- **`~PGClient` never gets stuck.**  In every run in which callbacks are non-empty, return and
destroy no client, with any number of clients and threads and whatever the connectors throw: from
every state in which a thread executes `~PGClient`, the process can go on, without a new call of the
application and without a spurious wakeup, until `~PGClient` has returned, all workers of the client
have ended and no task is left.  The calls that tasks make through the destroyed `mPGConnector` are
taken to return or throw. -/
theorem destructor_returns {s : State} (h : pg.ReachableWhere ProperCallbacks State.init s)
    {t : Thread} {pc : DtorPc} {c : ClientId} (hf : s.frame t = .dtor pc c) :
    s.CanReach fun s' => s'.frame t = .idle (some .destroyed) ∧
      (s'.client c).mDatabase = false ∧ s'.Ended c := by
  obtain ⟨s', hr, hidle, hd⟩ := canReach_destroyed h hf
  exact ⟨s', hr, hidle, hd, ended_of_reachable ((proper_trans h hr).mono fun _ _ _ => trivial) hd⟩

/-- The destruction of a client with a task that waits for the callback mutex, and another one in
the queue. -/
def busyLabels : List Label :=
  queryLabels 0 0 true ++ queryLabels 0 0 true ++ fetchLabels ⟨0, 2⟩ [] ++
    [.call (.app 1) (.destructor 0), .work ⟨0, 4⟩ (.loop .acquire)]

/-- `~PGClient` waits for the queue mutex, which a worker has locked that is about to take a
task. -/
theorem destructor_returns_busy : ∃ s, pg.run State.init busyLabels = some s ∧
    s.frame (.app 1) = .dtor .lock 0 ∧ (s.pool 0).tasks = [⟨1, -1, true⟩] ∧
    s.CanReach fun s' => s'.frame (.app 1) = .idle (some .destroyed) ∧
      (s'.client 0).mDatabase = false ∧ s'.Ended 0 := by
  have hrun : ∃ s, pg.run State.init busyLabels = some s ∧
      s.frame (.app 1) = .dtor .lock 0 ∧ (s.pool 0).tasks = [⟨1, -1, true⟩] :=
    ⟨_, rfl, rfl, rfl⟩
  obtain ⟨s, hs, hf, htasks⟩ := hrun
  have hls : pg.AllSteps ProperCallbacks State.init busyLabels := by
    refine Machine.allSteps_of_labels fun l hl s => ⟨?_, ?_, ?_⟩
    · rintro w rfl
      simp [busyLabels, queryLabels, fetchLabels] at hl
    · rintro w c rfl
      simp [busyLabels, queryLabels, fetchLabels] at hl
    · rintro t c e rfl
      simp [busyLabels, queryLabels, fetchLabels] at hl
  exact ⟨s, hs, hf, htasks, destructor_returns (Machine.reachableWhere_of_run hs hls) hf⟩

end Comyno.Pg
