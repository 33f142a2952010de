import Comyno.Conc.Lock
import Comyno.Pg.Step

/-!
# The queue mutex of a pool

Every pool has its own `queue_mutex`.  Workers, `enqueue` and `~ThreadPool` lock it through a
`std::unique_lock`, so no exception can skip the unlock: it is never orphaned
(`queueLock_noOrphan`), whatever the tasks and their callbacks do, and whoever holds it can
release it with its next step (`exists_release`).
-/

namespace Comyno.Pg

open Conc

/-- The operation has the queue mutex of the client `c` locked. -/
def Frame.locksQueue (c : ClientId) : Frame → Bool
  | .query (.push _) q => q.client = c
  | .dtor .stop d => d = c
  | _ => false

/-- The thread `t` is a worker of the client `c` with the queue mutex locked. -/
def State.Checks (s : State) (c : ClientId) (t : Thread) : Prop :=
  ∃ i, t = .worker ⟨c, i⟩ ∧ s.pc ⟨c, i⟩ = .check

/-- The queue mutex of the client `c` and its critical sections. -/
def queueLock (c : ClientId) : LockView State Thread where
  owner s := (s.pool c).queueMutex
  inside s t := s.Checks c t ∨ (s.frame t).locksQueue c = true

/-- What an operation at the frame `f`, executed by `t`, does to the queue mutex of `c` with its
next step. -/
def Frame.queueAct (c : ClientId) (t : Thread) : Frame → LockAct Thread
  | .query (.enqueue _) q => if q.client = c then .acquire t else .keep
  | .query (.push _) q => if q.client = c then .release t else .keep
  | .dtor .lock d => if d = c then .acquire t else .keep
  | .dtor .stop d => if d = c then .release t else .keep
  | _ => .keep

theorem Frame.queueAct_of_usesConnector (c : ClientId) (t : Thread) {pc : QueryPc} {q : Query}
    (h : pc.usesConnector = true) : (Frame.query pc q).queueAct c t = .keep ∧
      (Frame.query pc q).locksQueue c = false := by
  cases pc <;> first | exact ⟨rfl, rfl⟩ | cases h

theorem QueryStep.locksQueue {c : ClientId} {q : Query} {pc : QueryPc} {x : Outcome} {f : Frame}
    (h : QueryStep q pc x f) : f.locksQueue c = false := by
  cases h <;> rfl

/-- What a step does to the queue mutex of `c`. -/
def queueLockAct (c : ClientId) (s : State) : Label → LockAct Thread
  | .work w (.loop .acquire) => if w.client = c then .acquire (.worker w) else .keep
  | .work w (.loop .check) => if w.client = c then .release (.worker w) else .keep
  | .exec t _ => (s.frame t).queueAct c t
  | _ => .keep

theorem Frame.queueAct_ne_abandon (c : ClientId) (t u : Thread) (f : Frame) :
    f.queueAct c t ≠ .abandon u := by
  unfold queueAct
  split <;> first | (split <;> simp) | simp

/-- Nobody leaves a critical section without unlocking. -/
theorem keepsLock_queueLockAct (c : ClientId) (s : State) (l : Label) :
    LockView.KeepsLock (queueLockAct c) s l := by
  intro t
  unfold queueLockAct
  split
  · split <;> simp
  · split <;> simp
  · exact Frame.queueAct_ne_abandon c _ t _
  · simp

theorem State.checks_worker_iff {s : State} {c : ClientId} {w : Worker} :
    s.Checks c (.worker w) ↔ w.client = c ∧ s.pc w = .check := by
  constructor
  · rintro ⟨i, hw, hpc⟩
    cases hw
    exact ⟨rfl, hpc⟩
  · rintro ⟨rfl, hpc⟩
    exact ⟨w.index, rfl, hpc⟩

/-- The thread that takes the step. -/
def Label.actor : Label → Thread
  | .work w _ => .worker w
  | .call t _ | .exec t _ | .notify t _ => t

section Step

variable {s s' : State} {l : Label} {c : ClientId}

/-- Only a step of its own loop takes a worker into or out of `check`. -/
theorem Step.pc_check_iff (h : Step s l s') {w : Worker} (hl : ∀ a, l ≠ .work w (.loop a)) :
    s'.pc w = .check ↔ s.pc w = .check := by
  have hm := h.pc_move w
  generalize s'.pc w = k at hm ⊢
  cases hm with
  | same => rfl
  | notify => exact LoopPc.notify_eq_check_iff
  | loop => exact absurd rfl (hl _)
  | task _ hx hk => exact iff_of_false (by cases hk <;> simp) (by simp [hx])

theorem Step.checks_iff (h : Step s l s') {t : Thread}
    (hl : ∀ w a, t = .worker w → l ≠ .work w (.loop a)) : s'.Checks c t ↔ s.Checks c t :=
  exists_congr fun _ => and_congr_right fun ht => h.pc_check_iff fun a => hl _ a ht

/-- A step moves no other thread into or out of a critical section. -/
theorem Step.queue_inside_iff (h : Step s l s') {u : Thread} (hu : u ≠ l.actor) :
    (queueLock c).inside s' u ↔ (queueLock c).inside s u := by
  have hthread : l.thread ≠ some u := by
    cases l with
    | work => simp [Label.thread]
    | _ => exact fun e => hu (Option.some.inj e).symm
  have hchecks : s'.Checks c u ↔ s.Checks c u := by
    refine h.checks_iff fun w a hw hl => ?_
    subst hw hl
    exact hu rfl
  exact or_congr hchecks (by rw [h.frame_of_ne hthread])

/-- A thread that executes an operation is not a worker in its loop. -/
theorem CallbackFrames.not_checks (hs : CallbackFrames s) {t : Thread}
    (ht : ∀ last, s.frame t ≠ .idle last) : ¬ s.Checks c t := by
  rintro ⟨i, rfl, hpc⟩
  obtain ⟨task, messages, hrun⟩ := hs _ ht
  rw [hrun] at hpc
  cases hpc

/-- A worker in its loop executes no operation. -/
theorem CallbackFrames.not_locksQueue (hs : CallbackFrames s) {w : Worker}
    (hw : s.pc w = .check) : (s.frame (.worker w)).locksQueue c = false := by
  by_cases hf : ∀ last, s.frame (.worker w) ≠ .idle last
  · obtain ⟨task, messages, hrun⟩ := hs _ hf
    rw [hrun] at hw
    cases hw
  · push Not at hf
    obtain ⟨last, hf⟩ := hf
    rw [hf]
    rfl

/-- The steps of the loop of a worker. -/
theorem queue_move_loop (hs : CallbackFrames s) {w : Worker} {a : LoopAct} {P : Pool}
    (hP : LoopStep (s.pool w.client) (Thread.worker w) w.index Task.start a P) :
    (queueLock c).Move s (s.setPool w.client P) (queueLockAct c s (.work w (.loop a))) := by
  have h : Step s (.work w (.loop a)) (s.setPool w.client P) := .loop hP
  have hother : ∀ u, u ≠ Thread.worker w →
      ((queueLock c).inside (s.setPool w.client P) u ↔ (queueLock c).inside s u) :=
    fun u hu => h.queue_inside_iff hu
  by_cases hc : w.client = c
  · subst hc
    have hpc : (s.setPool w.client P).pc w = P.workers w.index := by simp [State.setPool_pc]
    have hfrom : s.pc w = (s.pool w.client).workers w.index := rfl
    have hkeep : P.queueMutex = (s.pool w.client).queueMutex → P.workers w.index ≠ .check →
        s.pc w ≠ .check → (queueLock w.client).Move s (s.setPool w.client P) .keep := by
      intro hown hck hck'
      refine .keep_of_local hother (by simp [queueLock, hown]) (or_congr ?_ Iff.rfl)
      simp [State.checks_worker_iff, hpc, hck, hck']
    have hrelease : s.pc w = .check → P.queueMutex = none → P.workers w.index ≠ .check →
        (queueLock w.client).Move s (s.setPool w.client P) (.release (.worker w)) := by
      intro hck hown hck'
      refine .release_of_local hother (Or.inl (State.checks_worker_iff.2 ⟨rfl, hck⟩))
        (by simp [queueLock, hown]) ?_
      rintro (hin | hin)
      · exact hck' (hpc ▸ (State.checks_worker_iff.1 hin).2)
      · exact absurd hin (by simp [hs.not_locksQueue hck])
    have hin : P.workers w.index = .check →
        (queueLock w.client).inside (s.setPool w.client P) (.worker w) := fun hck =>
      Or.inl (State.checks_worker_iff.2 ⟨rfl, hpc.trans hck⟩)
    cases hP with
    | acquire _ hfree =>
      rw [show queueLockAct w.client s (.work w (.loop .acquire)) = .acquire (.worker w) from
        if_pos rfl]
      exact .acquire_of_local hother hfree (by simp [queueLock]) (hin (by simp))
    | take hck | leave hck | wait hck =>
      rw [show queueLockAct w.client s (.work w (.loop .check)) = .release (.worker w) from
        if_pos rfl]
      exact hrelease (hfrom.trans hck) (by simp) (by simp)
    | wake hck | wakeSpurious hck =>
      exact hkeep (by simp) (by simp) (by simp [hfrom, hck])
  · have hact : queueLockAct c s (.work w (.loop a)) = .keep := by
      cases a <;> simp [queueLockAct, hc]
    rw [hact]
    refine .keep_of_local hother (by simp [queueLock, Ne.symm hc]) (or_congr ?_ Iff.rfl)
    simp [State.checks_worker_iff, hc]

/-- The steps of an operation.  Its own frames before and after the step say what happens to the
queue mutex. -/
theorem queue_move_exec (hs : CallbackFrames s) {t : Thread} {x : Outcome}
    (h : Step s (.exec t x) s') : (queueLock c).Move s s' ((s.frame t).queueAct c t) := by
  have hother : ∀ u, u ≠ t → ((queueLock c).inside s' u ↔ (queueLock c).inside s u) :=
    fun u hu => h.queue_inside_iff hu
  have hchecks : ¬ s'.Checks c t ∧ ¬ s.Checks c t := by
    have hbusy : ∀ last, s.frame t ≠ .idle last := by
      cases h <;> simp_all
    have := hs.not_checks (c := c) hbusy
    exact ⟨fun hck => this ((h.checks_iff (by simp)).1 hck), this⟩
  have hkeep : (s'.pool c).queueMutex = (s.pool c).queueMutex →
      (s'.frame t).locksQueue c = (s.frame t).locksQueue c → (queueLock c).Move s s' .keep := by
    intro hown hin
    refine .keep_of_local hother hown (or_congr (iff_of_false hchecks.1 hchecks.2) ?_)
    rw [hin]
  have hacquire : (s.pool c).queueMutex = none → (s'.pool c).queueMutex = some t →
      (s'.frame t).locksQueue c = true → (queueLock c).Move s s' (.acquire t) :=
    fun hfree hown hin => .acquire_of_local hother hfree hown (Or.inr hin)
  have hrelease : (s.frame t).locksQueue c = true → (s'.pool c).queueMutex = none →
      (s'.frame t).locksQueue c = false → (queueLock c).Move s s' (.release t) := by
    intro hin hown hout
    refine .release_of_local hother (Or.inr hin) hown ?_
    rintro (hck | hin')
    · exact hchecks.1 hck
    · rw [hout] at hin'
      cases hin'
  cases h with
  | query hf hq =>
    obtain ⟨hact, hin⟩ := Frame.queueAct_of_usesConnector c t hq.usesConnector
    rw [hf, hact]
    exact hkeep (by simp) (by simp [hf, hin, hq.locksQueue])
  | @enqueue _ task q hf hfree =>
    by_cases hc : q.client = c
    · rw [hf, show (Frame.query (.enqueue task) q).queueAct c t = .acquire t from if_pos hc]
      exact hacquire (hc ▸ hfree) (by simp [hc]) (by simp [Frame.locksQueue, hc])
    · rw [hf, show (Frame.query (.enqueue task) q).queueAct c t = .keep from if_neg hc]
      exact hkeep (by simp [Ne.symm hc]) (by simp [hf, Frame.locksQueue, hc])
  | @push _ task q hf _ | @pushStopped _ task q hf _ =>
    by_cases hc : q.client = c
    · rw [hf, show (Frame.query (.push task) q).queueAct c t = .release t from if_pos hc]
      exact hrelease (by simp [hf, Frame.locksQueue, hc]) (by simp [hc])
        (by simp [Frame.locksQueue])
    · rw [hf, show (Frame.query (.push task) q).queueAct c t = .keep from if_neg hc]
      exact hkeep (by simp [Ne.symm hc]) (by simp [hf, Frame.locksQueue, hc])
  | @dtorLock _ d hf hfree =>
    by_cases hc : d = c
    · rw [hf, show (Frame.dtor .lock d).queueAct c t = .acquire t from if_pos hc]
      exact hacquire (hc ▸ hfree) (by simp [hc]) (by simp [Frame.locksQueue, hc])
    · rw [hf, show (Frame.dtor .lock d).queueAct c t = .keep from if_neg hc]
      exact hkeep (by simp [Ne.symm hc]) (by simp [hf, Frame.locksQueue, hc])
  | @dtorStop _ d hf =>
    by_cases hc : d = c
    · rw [hf, show (Frame.dtor .stop d).queueAct c t = .release t from if_pos hc]
      exact hrelease (by simp [hf, Frame.locksQueue, hc]) (by simp [hc])
        (by simp [Frame.locksQueue])
    · rw [hf, show (Frame.dtor .stop d).queueAct c t = .keep from if_neg hc]
      exact hkeep (by simp [Ne.symm hc]) (by simp [hf, Frame.locksQueue, hc])
  | @dtorNotify _ d hf =>
    rw [hf]
    refine hkeep ?_ (by simp [hf, Frame.locksQueue])
    by_cases hc : c = d <;> simp [hc, ThreadPool.notifyAll]
  | @dtorJoin _ d _ _ hf =>
    rw [hf]
    exact hkeep rfl (by simp [hf, Frame.locksQueue])
  | dtorJoinThrow hf =>
    rw [hf]
    exact hkeep rfl rfl
  | @dtorDone _ d hf =>
    rw [hf]
    refine hkeep ?_ (by simp [hf, Frame.locksQueue])
    by_cases hc : c = d <;> simp [hc, State.pool]

/-- Every step acts on the queue mutex as its label says. -/
theorem Step.queue_move (h : Step s l s') (hs : CallbackFrames s) :
    (queueLock c).Move s s' (queueLockAct c s l) := by
  have hother : ∀ u, u ≠ l.actor →
      ((queueLock c).inside s' u ↔ (queueLock c).inside s u) := fun u hu => h.queue_inside_iff hu
  cases l with
  | work w a =>
    cases a with
    | loop a =>
      cases h with
      | loop hP => exact queue_move_loop hs hP
    | task a =>
      have hck := h.checks_iff (c := c) (t := .worker w) (by simp)
      cases h with
      | task => exact .keep_of_local hother (by simp [queueLock]) (or_congr hck Iff.rfl)
  | exec t x => exact queue_move_exec hs h
  | call t op =>
    have hck := h.checks_iff (c := c) (t := t) (by simp)
    refine .keep_of_local (t := t) hother ?_ (or_congr hck ?_)
    · cases h with
      | callQuery => rfl
      | @callDestructor _ d => by_cases hc : c = d <;> simp [queueLock, hc, State.pool]
    · have hidle : ∃ last, s.frame t = .idle last := by
        cases h with
        | callQuery hr | callDestructor hr => exact State.idle_of_ready hr
      obtain ⟨last, hidle⟩ := hidle
      rw [hidle]
      cases h <;> simp [Frame.locksQueue]
  | notify t i =>
    have hck := h.checks_iff (c := c) (t := t) (by simp)
    refine .keep_of_local (t := t) hother ?_ (or_congr hck ?_)
    · cases h with
      | @notifyOne _ q _ | @notifyNobody _ q =>
        by_cases hc : c = q.client <;> simp [queueLock, hc]
    · cases h with
      | notifyOne hf | notifyNobody hf => simp [hf, Frame.locksQueue]

theorem queueLock_follows (c : ClientId) :
    (queueLock c).Follows pg CallbackFrames (queueLockAct c) := fun _ _ _ hs hst =>
  ⟨hs.step (step_cases hst).2, (step_cases hst).2.queue_move hs⟩

end Step

/-- **The queue mutex is never orphaned**, whatever the tasks do. -/
theorem queueLock_noOrphan {C : State → Label → Prop} {s : State}
    (h : pg.ReachableWhere C State.init s) (c : ClientId) : (queueLock c).NoOrphan s :=
  (queueLock_follows c).noOrphan_of_reachable (fun s l _ => keepsLock_queueLockAct c s l) h
    CallbackFrames.init fun _ h => by cases h

/-- The label is a step that releases the queue mutex of `c`. -/
def Label.ReleasesQueue (c : ClientId) (s : State) (l : Label) : Prop :=
  (∃ w, l = .work w (.loop .check)) ∨ ∃ t, l = .exec t .ok ∧ (s.frame t).locksQueue c = true

/-- **Whoever holds the queue mutex can release it with its next step.** -/
theorem exists_release {C : State → Label → Prop} {s : State}
    (h : pg.ReachableWhere C State.init s) (hrun : s.halted = false) {c : ClientId}
    (hm : (s.pool c).queueMutex ≠ none) :
    ∃ l s', l.ReleasesQueue c s ∧ pg.step s l = some s' ∧ (s'.pool c).queueMutex = none ∧
      s'.mMutex = s.mMutex ∧ s'.halted = false := by
  obtain ⟨t, ht⟩ := Option.ne_none_iff_exists'.1 hm
  rcases queueLock_noOrphan h c t ht with ⟨i, rfl, hpc⟩ | hf
  · obtain ⟨P, hP, hfree⟩ := ThreadPool.exists_check (Thread.worker ⟨c, i⟩) Task.start hpc
    refine ⟨.work ⟨c, i⟩ (.loop .check), s.setPool c P, Or.inl ⟨_, rfl⟩, ?_, ?_, rfl, hrun⟩
    · rw [pg_step_work hrun, State.work, hP]
      rfl
    · simpa using hfree
  · cases hframe : s.frame t with
    | query pc q =>
      rw [hframe] at hf
      cases pc with
      | push task =>
        obtain rfl : q.client = c := by simpa [Frame.locksQueue] using hf
        cases hP : (s.pool q.client).enqueue task with
        | some P =>
          refine ⟨.exec t .ok, (s.setPool q.client P.unlock).goto t (.query .notify q),
            Or.inr ⟨t, rfl, hframe ▸ hf⟩, ?_, by simp, rfl, hrun⟩
          simp [pg_step_exec hrun, State.exec, hframe, State.pgMessageQuery, hP]
        | none =>
          refine ⟨.exec t .ok, (s.setPool q.client (s.pool q.client).unlock).goto t
            (.idle (some (.status .pgError))), Or.inr ⟨t, rfl, hframe ▸ hf⟩, ?_, by simp, rfl, hrun⟩
          simp [pg_step_exec hrun, State.exec, hframe, State.pgMessageQuery, hP]
      | _ => cases hf
    | dtor pc d =>
      rw [hframe] at hf
      cases pc with
      | stop =>
        obtain rfl : d = c := by simpa [Frame.locksQueue] using hf
        refine ⟨.exec t .ok, (s.setPool d { (s.pool d).unlock with stop := true }).goto t
          (.dtor .notify d), Or.inr ⟨t, rfl, hframe ▸ hf⟩, ?_, by simp, rfl, hrun⟩
        simp [pg_step_exec hrun, State.exec, hframe, State.destroyClient]
      | _ => cases hf
    | idle =>
      rw [hframe] at hf
      cases hf

end Comyno.Pg
