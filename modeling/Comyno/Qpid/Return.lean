import Comyno.Conc.Progress
import Comyno.Qpid.Progress

/-!
# Operations return

On the normal path no operation of an application thread blocks (`stop_progress`).  Here it is shown
that it also comes to its end: from every reachable state the process can go on, without a new call
and without the broker, until the operation has returned.

The rank of an operation is the number of its program points that are left (`State.left`), which
counts the receivers that `~QPIDMessaging` still has to stop and to destroy.  Where the operation
waits to join a worker, the worker is led out of its loop first (`exists_exited`): its connection
was closed, so `receiverFetch` and `sessionAcknowledge` throw, and whoever holds `mMutex` runs a
callback, which returns (`exists_free`).  All this is done in the library without sends; a thread
that has a step to take there may have to end a send first (`exists_messaging`).

## Main result

* `operation_returns` : `qpidReceiveMessages`, `qpidReceiveStop` and `~QPIDMessaging` return.
-/

namespace Comyno

open Conc

namespace State

variable (s : State)

/-- A step of the worker of `r` leaves the receiver `R` and the owner `m` of the mutex. -/
def worked (r : RecvId) (R : Receiver) (m : Option RecvId) : State :=
  { s.setRecv r R with mMutex := m, halted := none }

@[simp] theorem worked_recv (r q : RecvId) (R : Receiver) (m : Option RecvId) :
    (s.worked r R m).recv q = if q = r then R else s.recv q := setRecv_recv ..

end State

/-! ### Going on -/

/-- The broker hands out a message or gets an acknowledgement by the step. -/
def Label.reachesBroker : Label → Bool
  | .work _ (.fetch _) | .work _ .acknowledge | .work _ (.acknowledgeThrow true) => true
  | _ => false

/-- The process goes on with what it has begun, on the normal path and without the broker. -/
def GoesOn (s : State) (l : Label) : Prop :=
  l.Autonomous s ∧ l.isNormal = true ∧ l.reachesBroker = false

/-- The process goes on by a step of a worker. -/
def WorkerGoesOn (s : State) (l : Label) : Prop := GoesOn s l ∧ ∃ r a, l = .work r a

section Going

variable {s s' : State} {l : Label} {r : RecvId} {a : WorkerAct} {R : Receiver}

theorem GoesOn.normalPath (h : GoesOn s l) : NormalPath s l := by
  obtain ⟨hcloses, hreturn, hcall⟩ := normalPath_of_label (s := s) h.2.1
  refine ⟨?_, hcloses, hreturn, hcall⟩
  cases l with
  | call => exact h.1.elim
  | _ => trivial

theorem GoesOn.of_not_waits (ha : a.waits = false) (hl : (Label.work r a).isNormal = true) :
    GoesOn s (.work r a) := by
  refine ⟨by simp [Label.Autonomous, ha], hl, ?_⟩
  cases a <;> first | rfl | cases ha

/-- The process runs on the normal path. -/
structure Running (s : State) : Prop where
  reach : qpid.ReachableWhere NormalPath State.init s
  running : s.halted = none

theorem Running.tail (h : Running s) (hl : GoesOn s l) (hst : qpid.step s l = some s')
    (hs' : s'.halted = none) : Running s' :=
  ⟨h.reach.tail hl.normalPath hst, hs'⟩

theorem Running.normal (h : Running s) : OnNormalPath s := onNormalPath_of_reachable h.reach

/-- The process runs, and its workers have done nothing to its operations and registries. -/
structure SameFrames (s s' : State) : Prop where
  running : Running s'
  frame : s'.frame = s.frame
  activeReceivers : s'.activeReceivers = s.activeReceivers

theorem SameFrames.refl (h : Running s) : SameFrames s s := ⟨h, rfl, rfl⟩

theorem SameFrames.trans {s'' : State} (h : SameFrames s s') (h' : SameFrames s' s'') :
    SameFrames s s'' :=
  ⟨h'.running, h'.frame.trans h.frame, h'.activeReceivers.trans h.activeReceivers⟩

/-- A worker that executes no operation takes the steps of its loop. -/
theorem Running.work (h : Running s) {m : Option RecvId} (hm : a.mutex r s.mMutex = some m)
    (hw : (s.recv r).waitForMessages a = some R) (ha : a.escapes = false) :
    qpid.step s (.work r a) = some (s.worked r R m) := by
  have hf := h.normal.normal.worker_idle r
  simp [qpid, State.step, h.running, State.work, State.worked, hf, hm, hw, ha]

theorem Running.sameFrames (h : Running s) {m : Option RecvId}
    (hm : a.mutex r s.mMutex = some m) (hw : (s.recv r).waitForMessages a = some R)
    (ha : a.escapes = false) (hl : GoesOn s (.work r a)) :
    SameFrames s (s.worked r R m) :=
  ⟨h.tail hl (h.work hm hw ha) rfl, rfl, rfl⟩

/-- The workers can go on to a state with `P`. -/
def State.WorkersReach (s : State) (P : State → Prop) : Prop :=
  qpid.CanReach WorkerGoesOn s fun s' => SameFrames s s' ∧ P s'

theorem State.WorkersReach.here {P : State → Prop} (h : Running s) (hP : P s) : s.WorkersReach P :=
  ⟨s, .refl s, .refl h, hP⟩

theorem State.WorkersReach.trans {P Q : State → Prop} (h : s.WorkersReach P)
    (hP : ∀ s', SameFrames s s' → P s' → s'.WorkersReach Q) : s.WorkersReach Q :=
  Machine.CanReach.trans_keeping (fun _ _ _ => SameFrames.trans) h hP

/-- A worker takes a step. -/
theorem State.WorkersReach.head {P : State → Prop} (h : Running s) {m : Option RecvId}
    (hm : a.mutex r s.mMutex = some m) (hw : (s.recv r).waitForMessages a = some R)
    (ha : a.escapes = false) (hl : GoesOn s (.work r a))
    (hP : Running (s.worked r R m) → (s.worked r R m).WorkersReach P) :
    s.WorkersReach P := by
  have hsame := h.sameFrames hm hw ha hl
  obtain ⟨s', hr, hsame', hs'⟩ := hP hsame.running
  exact ⟨s', .head ⟨hl, r, a, rfl⟩ (h.work hm hw ha) hr, hsame.trans hsame', hs'⟩

end Going

/-! ### The holder of the mutex -/

section Holder

variable {s : State} {r : RecvId}

/-- The mutex is free, and no receiver but `r` has changed. -/
def State.Freed (s : State) (r : RecvId) (s' : State) : Prop :=
  s'.mMutex = none ∧ ∀ q, q ≠ r → s'.recv q = s.recv q

theorem freed_of_unlock (h : Running s) (hpc : (s.recv r).pc = .unlock) :
    s.WorkersReach (s.Freed r) := by
  refine .head (r := r) (a := .unlock) (R := { s.recv r with pc := .acknowledge }) h rfl
    (by simp [Receiver.waitForMessages, hpc]) rfl (.of_not_waits rfl rfl) fun h' => ?_
  exact .here h' ⟨rfl, fun q hq => by simp [hq]⟩

theorem freed_of_callback (h : Running s) {m : Message} (hpc : (s.recv r).pc = .callback m) :
    s.WorkersReach (s.Freed r) := by
  refine .head (r := r) (a := .callbackReturn) (R := { s.recv r with
      pc := .unlock, processed := (s.recv r).processed ++ [m] }) h rfl
    (by simp [Receiver.waitForMessages, hpc]) rfl (.of_not_waits rfl rfl) fun h' => ?_
  refine (freed_of_unlock (r := r) h' (by simp)).trans fun s' hsame hs' => ?_
  exact .here hsame.running ⟨hs'.1, fun q hq => by rw [hs'.2 q hq]; simp [hq]⟩

theorem freed_of_call (h : Running s) {m : Message} (hpc : (s.recv r).pc = .call m) :
    s.WorkersReach (s.Freed r) := by
  refine .head (r := r) (a := .invoke) (R := { s.recv r with
      pc := .callback m
      invoked := (s.recv r).invoked ++ [Receiver.callbackArgs (s.recv r).mExchange m] }) h rfl
    (by simp [Receiver.waitForMessages, hpc]) rfl (.of_not_waits rfl rfl) fun h' => ?_
  refine (freed_of_callback (r := r) (m := m) h' (by simp)).trans fun s' hsame hs' => ?_
  exact .here hsame.running ⟨hs'.1, fun q hq => by rw [hs'.2 q hq]; simp [hq]⟩

/-- **Whoever holds the mutex can free it**, and nobody else moves meanwhile. -/
theorem exists_free (h : Running s) (hr : (s.recv r).pc.locked = false) :
    s.WorkersReach fun s' => s'.mMutex = none ∧ s'.recv r = s.recv r := by
  cases hown : s.mMutex with
  | none => exact .here h ⟨hown, rfl⟩
  | some q =>
    have hin : (s.recv q).pc.locked = true := h.normal.noOrphan q hown
    have hne : r ≠ q := by
      rintro rfl
      rw [hr] at hin
      cases hin
    have hfreed : s.WorkersReach (s.Freed q) := by
      cases hpc : (s.recv q).pc with
      | call m => exact freed_of_call h hpc
      | callback m => exact freed_of_callback h hpc
      | unlock => exact freed_of_unlock h hpc
      | _ => simp [hpc, WorkerPc.locked] at hin
    exact hfreed.trans fun s' hsame hs' => .here hsame.running ⟨hs'.1, hs'.2 r hne⟩

end Holder

/-- Only `mMutex.lock()` can block. -/
theorem WorkerAct.exists_mutex {a : WorkerAct} {mMutex : Option RecvId} (r : RecvId)
    (h : mMutex = none ∨ a ≠ .lock) : ∃ m, a.mutex r mMutex = some m := by
  unfold WorkerAct.mutex
  rcases h with rfl | h
  · cases a <;> exact ⟨_, rfl⟩
  · cases a <;> first | exact ⟨_, rfl⟩ | exact absurd rfl h

/-! ### The worker that is joined -/

namespace WorkerPc

/-- How far the worker of a stopped receiver is from its end. -/
def toExit : WorkerPc → ℕ
  | .unborn | .exited => 0
  | .test => 1
  | .handlerClose => 2
  | .handler => 3
  | .fetch | .acknowledge => 4
  | .unlock => 5
  | .callback _ => 6
  | .call _ => 7
  | .lock _ => 8

/-- The step that takes a worker nearer to its end. -/
def leave : WorkerPc → WorkerAct
  | .test | .unborn | .exited => .test
  | .fetch => .fetchThrow
  | .lock _ => .lock
  | .call _ => .invoke
  | .callback _ => .callbackReturn
  | .unlock => .unlock
  | .acknowledge => .acknowledgeThrow false
  | .handler => .isOpen
  | .handlerClose => .close

theorem leave_escapes (pc : WorkerPc) : pc.leave.escapes = false := by
  cases pc <;> rfl

theorem leave_isNormal (pc : WorkerPc) (r : RecvId) : (Label.work r pc.leave).isNormal = true := by
  cases pc <;> rfl

theorem leave_reachesBroker (pc : WorkerPc) (r : RecvId) :
    (Label.work r pc.leave).reachesBroker = false := by
  cases pc <;> rfl

theorem leave_ne_lock {pc : WorkerPc} (h : pc.locked = true) : pc.leave ≠ .lock := by
  cases pc <;> simp_all [leave, locked]

end WorkerPc

/-- The worker of a receiver whose flag is cleared goes nearer to its end. -/
theorem Receiver.exists_leave {R : Receiver} (hborn : R.pc ≠ .unborn) (hexit : R.pc ≠ .exited)
    (hflag : R.mReceivingActive = false) :
    ∃ R', R.waitForMessages R.pc.leave = some R' ∧ R'.pc.toExit < R.pc.toExit := by
  unfold waitForMessages
  cases hpc : R.pc with
  | unborn => exact absurd hpc hborn
  | exited => exact absurd hpc hexit
  | test => exact ⟨_, rfl, by simp [hflag, WorkerPc.toExit]⟩
  | handler =>
    refine ⟨_, rfl, ?_⟩
    cases R.isOpen <;> simp [WorkerPc.toExit]
  | _ => exact ⟨_, rfl, by simp [WorkerPc.toExit]⟩

/-- The receiver was stopped, up to joining its worker. -/
structure Stopped (R : Receiver) : Prop where
  born : R.pc ≠ .unborn
  inactive : R.mReceivingActive = false
  closed : 0 < R.closes

theorem Stopped.work {R R' : Receiver} {a : WorkerAct} (h : Stopped R) (hw : WorkStep R a R') :
    Stopped R' := by
  obtain ⟨hborn, hflag, hclosed⟩ := h
  cases hw <;> first | exact ⟨by simp, hflag, hclosed⟩ | exact ⟨by simp, hflag, Nat.succ_pos _⟩

section Exit

variable {s : State} {r : RecvId}

/-- The worker takes a step towards its end, the mutex being free or its own. -/
theorem leaves_of_free (h : Running s) (hs : Stopped (s.recv r)) (hexit : (s.recv r).pc ≠ .exited)
    (hm : s.mMutex = none ∨ (s.recv r).pc.locked = true) :
    s.WorkersReach fun s' =>
      Stopped (s'.recv r) ∧ (s'.recv r).pc.toExit < (s.recv r).pc.toExit := by
  obtain ⟨m, hm⟩ := WorkerAct.exists_mutex r (hm.imp_right WorkerPc.leave_ne_lock)
  obtain ⟨R, hw, hlt⟩ := Receiver.exists_leave hs.born hexit hs.inactive
  refine .head h hm hw (WorkerPc.leave_escapes _)
    ⟨fun _ => hs.closed, WorkerPc.leave_isNormal _ _, WorkerPc.leave_reachesBroker _ _⟩ fun h' => ?_
  exact .here h' ⟨by simpa using hs.work (Receiver.waitForMessages_cases hw), by simpa using hlt⟩

/-- The worker can come nearer to its end. -/
theorem exists_leaves (h : Running s) (hs : Stopped (s.recv r))
    (hexit : (s.recv r).pc ≠ .exited) : s.WorkersReach fun s' =>
      Stopped (s'.recv r) ∧ (s'.recv r).pc.toExit < (s.recv r).pc.toExit := by
  cases hlocked : (s.recv r).pc.locked with
  | true => exact leaves_of_free h hs hexit (Or.inr hlocked)
  | false =>
    refine (exists_free h hlocked).trans fun s' hsame hs' => ?_
    obtain ⟨hfree, heq⟩ := hs'
    rw [← heq] at hs hexit ⊢
    exact leaves_of_free hsame.running hs hexit (Or.inl hfree)

/-- **The worker of a stopped receiver can end.** -/
theorem exists_exited (h : Running s) (hs : Stopped (s.recv r)) :
    s.WorkersReach fun s' => (s'.recv r).pc = .exited := by
  refine Machine.CanReach.of_rank (P := fun n s' =>
    SameFrames s s' ∧ Stopped (s'.recv r) ∧ (s'.recv r).pc.toExit = n) (fun n s₁ hs₁ => ?_)
    ⟨.refl h, hs, rfl⟩
  obtain ⟨hsame, hs₁, rfl⟩ := hs₁
  by_cases hexit : (s₁.recv r).pc = .exited
  · exact .here (Or.inl ⟨hsame, hexit⟩)
  · obtain ⟨s₂, hr, hsame', hs₂, hlt⟩ := exists_leaves hsame.running hs₁ hexit
    exact ⟨s₂, hr, Or.inr ⟨_, hlt, hsame.trans hsame', hs₂, rfl⟩⟩

end Exit

/-! ### What is left of an operation -/

/-- How many program points of `receiveMessages` are left. -/
def StartPc.left : StartPc → ℕ
  | .openConnection => 4
  | .createSession => 3
  | .createReceiver => 2
  | .createThread => 1
  | .handler => 0

/-- How many program points of `receiveStop` are left. -/
def StopPc.left : StopPc → ℕ
  | .test => 5
  | .clear => 4
  | .close => 3
  | .joinable => 2
  | .join => 1

/-- How many program points of `~QPIDReceiver` are left. -/
def DtorPc.left : DtorPc → ℕ
  | .test => 5
  | .clear => 4
  | .close => 3
  | .joinable => 2
  | .join => 1

/-- How many program points are left after `receiveStop`, if the registry of each object has the
given size: to erase a receiver runs its destructor. -/
def StopCaller.left (size : ObjId → ℕ) : StopCaller → ℕ
  | .receiveStop _ _ => 6
  | .destructor o todo => 2 + 6 * size o + 6 * todo.length

/-- How many program points are left after `~QPIDReceiver`. -/
def DtorCaller.left (size : ObjId → ℕ) : DtorCaller → ℕ
  | .operation _ => 0
  | .clear o => 1 + 6 * size o

/-- How many program points of an operation are left. -/
def Frame.left (size : ObjId → ℕ) : Frame → ℕ
  | .idle _ => 0
  | .construct _ _ => 11
  | .start pc _ _ _ => 6 + pc.left
  | .emplace _ _ _ => 6
  | .index _ _ => 12
  | .stop pc k _ => pc.left + k.left size
  | .erase _ _ _ => 6
  | .dtor pc k _ => pc.left + k.left size
  | .stopAll o todo => 2 + 6 * size o + 6 * todo.length
  | .clearAll o => 1 + 6 * size o

/-- The number of receivers in the registry of `o`. -/
def State.size (s : State) (o : ObjId) : ℕ := (s.activeReceivers o).keys.length

/-- How many program points of the operation of `t` are left. -/
def State.left (s : State) (t : Thread) : ℕ := (s.frame t).left s.size

-- These are used through their values at each constructor.
attribute [simp] Frame.left.eq_1 Frame.left.eq_2 Frame.left.eq_3 Frame.left.eq_4 Frame.left.eq_5
  Frame.left.eq_6 Frame.left.eq_7 Frame.left.eq_8 Frame.left.eq_9 Frame.left.eq_10
attribute [simp] StartPc.left.eq_1 StartPc.left.eq_2 StartPc.left.eq_3 StartPc.left.eq_4
  StartPc.left.eq_5 StopPc.left.eq_1 StopPc.left.eq_2 StopPc.left.eq_3 StopPc.left.eq_4
  StopPc.left.eq_5 DtorPc.left.eq_1 DtorPc.left.eq_2 DtorPc.left.eq_3 DtorPc.left.eq_4
  DtorPc.left.eq_5
attribute [simp] StopCaller.left.eq_1 StopCaller.left.eq_2 DtorCaller.left.eq_1 DtorCaller.left.eq_2

@[simp] theorem StopCaller.left_frame (size : ObjId → ℕ) (k : StopCaller) (st : QPIDStatus) :
    (k.frame st).left size = k.left size := by
  cases k <;> rfl

@[simp] theorem DtorCaller.left_frame (size : ObjId → ℕ) (k : DtorCaller) :
    k.frame.left size = k.left size := by
  cases k <;> rfl

section Left

variable {s s' : State} {l : Label} {t : Thread}

@[simp] theorem State.size_goto (f : Frame) : (s.goto t f).size = s.size := rfl

@[simp] theorem State.size_setRecv (r : RecvId) (R : Receiver) : (s.setRecv r R).size = s.size :=
  rfl

/-- `~QPIDMessaging` takes an entry out of its registry. -/
theorem State.size_erase {o : ObjId} {e : String} {r : RecvId}
    (h : (s.activeReceivers o).lookup e = some r) :
    (s.setReg o ((s.activeReceivers o).erase e)).size o + 1 = s.size o := by
  have hmem : e ∈ (s.activeReceivers o).keys :=
    AList.mem_keys.1 (AList.lookup_isSome.1 (by rw [h]; rfl))
  have hpos := List.length_pos_of_mem hmem
  simp only [State.size, State.setReg_activeReceivers, if_true, AList.keys_erase]
  rw [List.length_erase_of_mem hmem]
  omega

/-- **Every step of an operation brings it nearer to its end**, unless it ends the process. -/
theorem Step.left_lt (h : Step s l s') (hl : l.thread = some t) (hcall : ∀ c, l ≠ .call t c)
    (hs' : s'.halted = none) : s'.left t < s.left t := by
  cases h with
  | work | lost => cases hl
  | callEmpty | callAlready | callConstruct | callInvalid | callIndex | callDestructor =>
    cases hl
    exact absurd rfl (hcall _)
  | indexNull | dtorCloseThrow | dtorJoinThrow => cases hs'
  | @pickStop _ o todo e r hf he =>
    cases hl
    have hpos := List.length_pos_of_mem he
    simp only [State.left, hf, State.goto_frame, if_true, State.size_goto, Frame.left, StopPc.left,
      StopCaller.left, List.length_erase_of_mem he]
    omega
  | @pickClear _ o e r hf hr =>
    cases hl
    have hsize := State.size_erase hr
    simp only [State.left, hf, State.goto_frame, if_true, State.size_goto, Frame.left, DtorPc.left,
      DtorCaller.left]
    omega
  | clearAllDone hf =>
    cases hl
    simp only [State.left, hf, State.goto_frame, if_true, Frame.left]
    omega
  | @startThrow _ pc _ _ _ hf hne =>
    cases hl
    cases pc <;> simp_all [State.left]
  | _ =>
    cases hl
    simp [State.left, *]

end Left

/-! ### Operations -/

section Operation

variable {s s' : State} {o : ObjId} {r : RecvId}

/-- Where a call of the connector throws, it could have returned. -/
theorem exists_exec_ok {t : Thread} (h : qpid.step s (.exec t .throw) = some s')
    (hs' : s'.halted = none) : ∃ s'', qpid.step s (.exec t .ok) = some s'' ∧ s''.halted = none := by
  obtain ⟨hh, hst⟩ := step_cases h
  cases hst with
  | constructThrow hf =>
    exact ⟨_, by simp [qpid, State.step, hh, State.exec, hf]; rfl, rfl⟩
  | @startThrow _ pc _ _ _ hf =>
    cases pc <;>
      exact ⟨_, by simp [qpid, State.step, hh, State.exec, State.receiveMessages, hf]; rfl,
        by simp [hh]⟩
  | handlerThrow hf =>
    exact ⟨_, by simp [qpid, State.step, hh, State.exec, State.receiveMessages, hf]; rfl,
      by simp [hh]⟩
  | stopCloseThrow hf =>
    exact ⟨_, by simp [qpid, State.step, hh, State.exec, State.receiveStop, hf]; rfl, by simp [hh]⟩
  | dtorCloseThrow => cases hs'

/-- What the thread can do, it can do on the normal path. -/
theorem State.CanAct.goesOn (h : s.CanAct (.app o)) : ∃ l s', GoesOn s l ∧
    l.thread = some (.app o) ∧ qpid.step s l = some s' ∧ s'.halted = none := by
  obtain ⟨l, s', hact, hauto, hst, hs'⟩ := h
  cases l with
  | work | lost => cases hact
  | call => exact hauto.elim
  | pick t e => exact ⟨.pick t e, s', ⟨trivial, rfl, rfl⟩, hact, hst, hs'⟩
  | exec t x =>
    cases x with
    | ok => exact ⟨.exec t .ok, s', ⟨trivial, rfl, rfl⟩, hact, hst, hs'⟩
    | throw =>
      obtain ⟨s'', hst', hs''⟩ := exists_exec_ok hst hs'
      exact ⟨.exec t .ok, s'', ⟨trivial, rfl, rfl⟩, hact, hst', hs''⟩

/-- A thread that can act brings its operation nearer to its end. -/
theorem State.CanAct.closer (h : s.CanAct (.app o)) (hs : Running s) :
    qpid.CanReach GoesOn s fun s' => Running s' ∧ s'.left (.app o) < s.left (.app o) := by
  obtain ⟨l, s', hl, hthread, hst, hs'⟩ := h.goesOn
  refine .head hl hst (.here ⟨hs.tail hl hst hs', ?_⟩)
  refine (step_cases hst).2.left_lt hthread ?_ hs'
  rintro c rfl
  exact hl.1

/-- A receiver whose worker a thread waits to join was stopped: the thread has closed its
connection. -/
theorem stopped_of_joins (hs : OnNormalPath s) {t : Thread} (hj : (s.frame t).joins r) :
    Stopped (s.recv r) := by
  have hthread := hs.owned.join_thread t r hj
  have hflag := hs.born.joins_inactive hj
  refine ⟨fun hpc => ?_, hflag, ?_⟩
  · rw [(hs.born.wf r).unborn_iff.1 hpc] at hthread
    cases hthread
  · rcases hs.normal.closed r (by simp [hthread]) hflag with hpos | ⟨u, hu⟩
    · exact hpos
    · obtain rfl :=
        hs.owned.recv_unique hs.life (Frame.recv_of_joins hj) (Frame.recv_of_closes hu)
      cases hf : s.frame u <;> simp_all

/-- **An operation can come nearer to its end**, once the worker that it joins has ended. -/
theorem exists_closer (h : Running s) (hf : ∀ last, s.frame (.app o) ≠ .idle last) :
    qpid.CanReach GoesOn s fun s' => Running s' ∧ s'.left (.app o) < s.left (.app o) := by
  rcases operation_enabled h.running h.normal.owned hf with hact | ⟨r, hj, -⟩
  · exact hact.closer h
  · obtain ⟨s₁, hr, hsame, hexit⟩ := exists_exited h (stopped_of_joins h.normal hj)
    have hleft : s₁.left (.app o) = s.left (.app o) := by
      have hsize : s₁.size = s.size := by
        funext p
        simp only [State.size, hsame.activeReceivers]
      rw [State.left, State.left, hsame.frame, hsize]
    have hact : s₁.CanAct (.app o) := by
      rcases operation_enabled (o := o) hsame.running.running hsame.running.normal.owned
        (by rwa [hsame.frame]) with hact | ⟨q, hq, hexit'⟩
      · exact hact
      · rw [hsame.frame] at hq
        have hrecv := (Frame.recv_of_joins hj).symm.trans (Frame.recv_of_joins hq)
        obtain rfl := Option.some.inj hrecv
        exact absurd hexit hexit'
    rw [← hleft]
    exact .of_reachable (hr.mono fun _ _ hl => hl.1) (hact.closer hsame.running)

/-- An operation can come to its end, in the library without sends. -/
theorem exists_returned (h : Running s) (o : ObjId) : qpid.CanReach GoesOn s fun s' =>
    s'.halted = none ∧ ∃ last, s'.frame (.app o) = .idle last := by
  refine Machine.CanReach.of_rank (P := fun n s => Running s ∧ s.left (.app o) = n)
    (fun n s hs => ?_) ⟨h, rfl⟩
  obtain ⟨hs, rfl⟩ := hs
  by_cases hidle : ∃ last, s.frame (.app o) = .idle last
  · exact .here (Or.inl ⟨hs.running, hidle⟩)
  · push Not at hidle
    obtain ⟨s', hr, hs', hlt⟩ := exists_closer hs hidle
    exact ⟨s', hr, Or.inr ⟨_, hlt, hs', rfl⟩⟩

end Operation

/-! ### With sends -/

/-- The process goes on with what it has begun, sends included.  Every call of a send returns,
except the constructor of an address from a text that is none. -/
def Process.Continues (p : Process) : ProcessLabel → Prop
  | .messaging l => GoesOn p.messaging l
  | .exec t x => x = .throw → ∃ args, p.sender t = .sending .address args
  | .send _ _ => False

section Send

variable {parse : AddressParser} {p : Process}

/-- A send can come to its end, and nothing else moves meanwhile. -/
theorem exists_sent (hh : p.messaging.halted = none) (t : Thread) :
    (process parse).CanReach Process.Continues p fun p' =>
      p'.messaging = p.messaging ∧ p'.idle t = true := by
  refine Machine.CanReach.of_rank
    (P := fun n p' => p'.messaging = p.messaging ∧ (p'.sender t).rank = n) (fun n p₁ hp₁ => ?_)
    ⟨rfl, rfl⟩
  obtain ⟨hsame, rfl⟩ := hp₁
  cases hf : p₁.sender t with
  | idle last => exact .here (Or.inl ⟨hsame, by simp [Process.idle, hf]⟩)
  | sending pc args =>
    obtain ⟨x, f, hstep, hthrow⟩ := args.exists_sendMessage parse pc
    have hlt := (SendArgs.sendMessage_cases hstep).rank_lt
    have hst : (process parse).step p₁ (.exec t x) =
        some ((p₁.record t (args.calls x pc)).goto t f) := by
      simp [process, Process.step, hsame, hh, hf, hstep]
    have hcontinues : p₁.Continues (.exec t x) := fun hx => ⟨args, by rw [hf, hthrow hx]⟩
    exact .head hcontinues hst (.here (Or.inr ⟨_, hlt, hsame, by simp⟩))

/-- **What the library can do without sends, it can do with them**: a thread that has a step to take
ends its send first. -/
theorem exists_messaging {s : State} (hr : qpid.ReachableWhere GoesOn p.messaging s) :
    (process parse).CanReach Process.Continues p fun p' => p'.messaging = s := by
  induction hr with
  | refl => exact .here rfl
  | @tail s₁ s₂ _ hst ih =>
    obtain ⟨l, hl, hst⟩ := hst
    refine ih.trans fun p₁ _ hp₁ => ?_
    subst hp₁
    have hidle : (process parse).CanReach Process.Continues p₁ fun p' =>
        p'.messaging = p₁.messaging ∧ ∀ t ∈ l.actor, p'.idle t = true := by
      cases hactor : l.actor with
      | none => exact .here ⟨rfl, by simp⟩
      | some t =>
        refine (exists_sent (step_cases hst).1 t).mono (fun _ _ => id) fun p' _ hp' => ?_
        exact ⟨hp'.1, by simpa using hp'.2⟩
    refine hidle.trans fun p₂ _ hp₂ => ?_
    obtain ⟨hsame, hidle⟩ := hp₂
    have hst' : p₂.messaging.step l = some s₂ := by rw [hsame]; exact hst
    have hst₂ : (process parse).step p₂ (.messaging l) =
        some { p₂ with messaging := s₂ } := by
      simpa [process, Process.step, hst'] using hidle
    exact .head (by rw [Process.Continues, hsame]; exact hl) hst₂ (.here rfl)

end Send

/-- **Every operation returns.**  On the normal path (`closeConnection` and the callbacks return,
callbacks call nothing but send operations, and no operation on an exchange begins while another
thread stops it), with any number of objects, receivers and interleavings: from every reachable
state of a process that runs, the process can go on, without a new call and without the broker,
until the operation of the thread has returned.  A callback that holds the mutex may be in the
middle of a send. -/
theorem operation_returns {parse : AddressParser} {p : Process}
    (h : (process parse).ReachableWhere (OfMessaging NormalPath) Process.init p)
    (hrun : p.messaging.halted = none) (o : ObjId) :
    (process parse).CanReach Process.Continues p fun p' =>
      p'.messaging.halted = none ∧ ∃ last, p'.messaging.frame (.app o) = .idle last := by
  obtain ⟨s, hr, hs⟩ := exists_returned ⟨messaging_reachableWhere h, hrun⟩ o
  exact (exists_messaging hr).mono (fun _ _ => id) fun p' _ hp' => hp' ▸ hs

/-- A destruction waits for a worker that waits for the callback of another receiver, which
sends. -/
def waitingDestruction : List ProcessLabel :=
  sendingCallback ++ (.call (.app 1) (.destructor 1) :: .pick (.app 1) "exchange" ::
    List.replicate 4 (.exec (.app 1) .ok)).map .messaging

theorem operation_returns_destructor :
    ∃ p, (process plainName).run Process.init waitingDestruction = some p ∧
      p.messaging.frame (.app 1) = .stop .join (.destructor 1 []) 1 ∧
      p.messaging.mMutex = some 0 ∧ p.idle (.worker 0) = false ∧
      (process plainName).CanReach Process.Continues p fun p' =>
        p'.messaging.halted = none ∧ ∃ last, p'.messaging.frame (.app 1) = .idle last := by
  have hrun : ∃ p, (process plainName).run Process.init waitingDestruction = some p ∧
      p.messaging.frame (.app 1) = .stop .join (.destructor 1 []) 1 ∧
      p.messaging.mMutex = some 0 ∧ p.idle (.worker 0) = false ∧
      p.messaging.halted = none := ⟨_, rfl, rfl, rfl, rfl, rfl⟩
  obtain ⟨p, hp, hf, hown, hsend, hhalted⟩ := hrun
  have hlabels : waitingDestruction.filterMap ProcessLabel.label =
      startLabels 0 "exchange" ++ startLabels 1 "exchange" ++
        callbackLabels 0 ⟨"first", ⟨"reply"⟩⟩ ++
        (callbackLabels 1 ⟨"second", ⟨"reply"⟩⟩).take 2 ++
        .call (.app 1) (.destructor 1) :: .pick (.app 1) "exchange" ::
          List.replicate 4 (.exec (.app 1) .ok) := rfl
  have hreach : (process plainName).ReachableWhere (OfMessaging NormalPath) Process.init p := by
    refine (processNormal_of_run (C := fun _ => True) hp ?_ ?_ fun _ _ => trivial).mono
      fun _ _ hc l' hl' => (hc l' hl').1 <;> rw [hlabels]
    · simp [startLabels, callbackLabels, AppOnly, Operation.object]
    · decide
  exact ⟨p, hp, hf, hown, hsend, operation_returns hreach hhalted 1⟩

end Comyno
