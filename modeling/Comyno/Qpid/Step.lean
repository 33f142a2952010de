import Comyno.Qpid.Messaging

/-!
# What one step of the messaging library does

`Step s l s'` lists the steps of the machine `qpid`, one constructor for each program point and
outcome, with the tests that were passed on the way and the state that results.
`step_cases` says that the list is complete; the invariants of the following modules never unfold
the step function.

Most of them do not go through the whole list either.  They look at one part of the state, and
for each part there is a shorter list:

* `Step.frame_of_ne` : a step changes no frame but that of the thread that takes it;
* `FrameMove`, `Step.frame_move` : how an operation goes on;
* `Step.recv_of_frame` : where the receiver an operation works on comes from;
* `RecvMove`, `Step.recv_move` : what a step does to one receiver;
* `RegMove`, `Step.reg_move` : what a step does to one entry of a registry.
-/

namespace Comyno

namespace State

variable (s : State)

@[simp] theorem goto_mMutex (t : Thread) (f : Frame) : (s.goto t f).mMutex = s.mMutex := rfl
@[simp] theorem goto_recv (t : Thread) (f : Frame) : (s.goto t f).recv = s.recv := rfl
@[simp] theorem goto_next (t : Thread) (f : Frame) : (s.goto t f).next = s.next := rfl
@[simp] theorem goto_activeReceivers (t : Thread) (f : Frame) :
    (s.goto t f).activeReceivers = s.activeReceivers := rfl
@[simp] theorem goto_halted (t : Thread) (f : Frame) : (s.goto t f).halted = s.halted := rfl

@[simp] theorem goto_frame (t u : Thread) (f : Frame) :
    (s.goto t f).frame u = if u = t then f else s.frame u := Function.update_apply ..

@[simp] theorem setRecv_mMutex (r : RecvId) (R : Receiver) :
    (s.setRecv r R).mMutex = s.mMutex := rfl
@[simp] theorem setRecv_frame (r : RecvId) (R : Receiver) : (s.setRecv r R).frame = s.frame := rfl
@[simp] theorem setRecv_next (r : RecvId) (R : Receiver) : (s.setRecv r R).next = s.next := rfl
@[simp] theorem setRecv_activeReceivers (r : RecvId) (R : Receiver) :
    (s.setRecv r R).activeReceivers = s.activeReceivers := rfl
@[simp] theorem setRecv_halted (r : RecvId) (R : Receiver) :
    (s.setRecv r R).halted = s.halted := rfl

@[simp] theorem setRecv_recv (r q : RecvId) (R : Receiver) :
    (s.setRecv r R).recv q = if q = r then R else s.recv q := Function.update_apply ..

@[simp] theorem setReg_mMutex (o : ObjId) (reg : Registry) :
    (s.setReg o reg).mMutex = s.mMutex := rfl
@[simp] theorem setReg_recv (o : ObjId) (reg : Registry) : (s.setReg o reg).recv = s.recv := rfl
@[simp] theorem setReg_frame (o : ObjId) (reg : Registry) : (s.setReg o reg).frame = s.frame := rfl
@[simp] theorem setReg_next (o : ObjId) (reg : Registry) : (s.setReg o reg).next = s.next := rfl
@[simp] theorem setReg_halted (o : ObjId) (reg : Registry) :
    (s.setReg o reg).halted = s.halted := rfl

@[simp] theorem setReg_activeReceivers (o p : ObjId) (reg : Registry) :
    (s.setReg o reg).activeReceivers p = if p = o then reg else s.activeReceivers p :=
  Function.update_apply ..

end State

/-- The steps of the machine. -/
inductive Step (s : State) : Label → State → Prop
  | work {r : RecvId} {a : WorkerAct} {last : Option Result} {mMutex : Option RecvId}
      {R : Receiver} : s.frame (.worker r) = .idle last → a.mutex r s.mMutex = some mMutex →
      WorkStep (s.recv r) a R →
      Step s (.work r a) { s.setRecv r R with
        mMutex := mMutex
        halted := if a.escapes then some .worker else none }
  | lost {r : RecvId} : Step s (.lost r) (s.setRecv r { s.recv r with isOpen := false })
  -- an operation is entered
  | callEmpty {t : Thread} {o : ObjId} {e : String} : s.ready t = true →
      Step s (.call t (.qpidReceiveMessages o e false))
        (s.goto t (.idle (some (.status .qpidError))))
  | callAlready {t : Thread} {o : ObjId} {e : String} {r : RecvId} : s.ready t = true →
      (s.activeReceivers o).lookup e = some r →
      Step s (.call t (.qpidReceiveMessages o e true))
        (s.goto t (.idle (some (.status .qpidAlready))))
  | callConstruct {t : Thread} {o : ObjId} {e : String} : s.ready t = true →
      (s.activeReceivers o).lookup e = none →
      Step s (.call t (.qpidReceiveMessages o e true)) (s.goto t (.construct o e))
  | callInvalid {t : Thread} {o : ObjId} {e : String} : s.ready t = true →
      (s.activeReceivers o).lookup e = none →
      Step s (.call t (.qpidReceiveStop o e)) (s.goto t (.idle (some (.status .qpidInvalidParam))))
  | callIndex {t : Thread} {o : ObjId} {e : String} {r : RecvId} : s.ready t = true →
      (s.activeReceivers o).lookup e = some r →
      Step s (.call t (.qpidReceiveStop o e)) (s.goto t (.index o e))
  | callDestructor {t : Thread} {o : ObjId} : s.ready t = true →
      Step s (.call t (.destructor o)) (s.goto t (.stopAll o (s.activeReceivers o).keys))
  -- `qpidReceiveMessages`
  | construct {t : Thread} {o : ObjId} {e : String} : s.frame t = .construct o e →
      Step s (.exec t .ok) { s.goto t (.start .openConnection o e s.next) with next := s.next + 1 }
  | constructThrow {t : Thread} {o : ObjId} {e : String} : s.frame t = .construct o e →
      Step s (.exec t .throw) (s.goto t (.idle (some .threw)))
  | openConnection {t : Thread} {o : ObjId} {e : String} {r : RecvId} :
      s.frame t = .start .openConnection o e r →
      Step s (.exec t .ok) ((s.setRecv r { s.recv r with isOpen := true }).goto t
        (.start .createSession o e r))
  | createSession {t : Thread} {o : ObjId} {e : String} {r : RecvId} :
      s.frame t = .start .createSession o e r →
      Step s (.exec t .ok) ((s.setRecv r { s.recv r with mExchange := e }).goto t
        (.start .createReceiver o e r))
  | createReceiver {t : Thread} {o : ObjId} {e : String} {r : RecvId} :
      s.frame t = .start .createReceiver o e r →
      Step s (.exec t .ok) ((s.setRecv r { s.recv r with mReceivingActive := true }).goto t
        (.start .createThread o e r))
  | createThread {t : Thread} {o : ObjId} {e : String} {r : RecvId} :
      s.frame t = .start .createThread o e r →
      Step s (.exec t .ok) ((s.setRecv r { s.recv r with thread := .joinable, pc := .test }).goto t
        (.emplace o e r))
  | startThrow {t : Thread} {pc : StartPc} {o : ObjId} {e : String} {r : RecvId} :
      s.frame t = .start pc o e r → pc ≠ .handler →
      Step s (.exec t .throw) (s.goto t (.start .handler o e r))
  | handler {t : Thread} {o : ObjId} {e : String} {r : RecvId} :
      s.frame t = .start .handler o e r →
      Step s (.exec t .ok) ((s.setRecv r (s.recv r).closeConnection).goto t
        (.dtor .test (.operation (.status .qpidError)) r))
  | handlerThrow {t : Thread} {o : ObjId} {e : String} {r : RecvId} :
      s.frame t = .start .handler o e r →
      Step s (.exec t .throw) ((s.setRecv r (s.recv r).closeConnectionThrow).goto t
        (.dtor .test (.operation .threw) r))
  | emplace {t : Thread} {o : ObjId} {e : String} {r : RecvId} : s.frame t = .emplace o e r →
      (s.activeReceivers o).lookup e = none →
      Step s (.exec t .ok) ((s.setReg o ((s.activeReceivers o).insert e r)).goto t
        (.idle (some (.status .qpidSuccess))))
  | emplaceTaken {t : Thread} {o : ObjId} {e : String} {r q : RecvId} :
      s.frame t = .emplace o e r → (s.activeReceivers o).lookup e = some q →
      Step s (.exec t .ok) (s.goto t (.dtor .test (.operation (.status .qpidSuccess)) r))
  -- `qpidReceiveStop`
  | index {t : Thread} {o : ObjId} {e : String} {r : RecvId} : s.frame t = .index o e →
      (s.activeReceivers o).lookup e = some r →
      Step s (.exec t .ok) (s.goto t (.stop .test (.receiveStop o e) r))
  | indexNull {t : Thread} {o : ObjId} {e : String} : s.frame t = .index o e →
      (s.activeReceivers o).lookup e = none →
      Step s (.exec t .ok) { s with halted := some .nullReceiver }
  | erase {t : Thread} {o : ObjId} {e : String} {st : QPIDStatus} {r : RecvId} :
      s.frame t = .erase o e st → (s.activeReceivers o).lookup e = some r →
      Step s (.exec t .ok) ((s.setReg o ((s.activeReceivers o).erase e)).goto t
        (.dtor .test (.operation (.status st)) r))
  | eraseNone {t : Thread} {o : ObjId} {e : String} {st : QPIDStatus} :
      s.frame t = .erase o e st → (s.activeReceivers o).lookup e = none →
      Step s (.exec t .ok) (s.goto t (.idle (some (.status st))))
  -- `QPIDReceiver::receiveStop`
  | stopTest {t : Thread} {k : StopCaller} {r : RecvId} : s.frame t = .stop .test k r →
      (s.recv r).mReceivingActive = true → Step s (.exec t .ok) (s.goto t (.stop .clear k r))
  | stopInactive {t : Thread} {k : StopCaller} {r : RecvId} : s.frame t = .stop .test k r →
      (s.recv r).mReceivingActive = false →
      Step s (.exec t .ok) (s.goto t (k.frame .qpidInvalidParam))
  | stopClear {t : Thread} {k : StopCaller} {r : RecvId} : s.frame t = .stop .clear k r →
      Step s (.exec t .ok) ((s.setRecv r { s.recv r with mReceivingActive := false }).goto t
        (.stop .close k r))
  | stopClose {t : Thread} {k : StopCaller} {r : RecvId} : s.frame t = .stop .close k r →
      Step s (.exec t .ok) ((s.setRecv r (s.recv r).closeConnection).goto t (.stop .joinable k r))
  | stopCloseThrow {t : Thread} {k : StopCaller} {r : RecvId} : s.frame t = .stop .close k r →
      Step s (.exec t .throw) ((s.setRecv r (s.recv r).closeConnectionThrow).goto t
        (k.frame .qpidError))
  | stopJoinable {t : Thread} {k : StopCaller} {r : RecvId} : s.frame t = .stop .joinable k r →
      (s.recv r).thread = .joinable → Step s (.exec t .ok) (s.goto t (.stop .join k r))
  | stopNotJoinable {t : Thread} {k : StopCaller} {r : RecvId} :
      s.frame t = .stop .joinable k r → (s.recv r).thread ≠ .joinable →
      Step s (.exec t .ok) (s.goto t (k.frame .qpidSuccess))
  | stopJoinThrow {t : Thread} {k : StopCaller} {r : RecvId} : s.frame t = .stop .join k r →
      (t = .worker r ∨ (s.recv r).thread ≠ .joinable) →
      Step s (.exec t .ok) (s.goto t (k.frame .qpidError))
  | stopJoin {t : Thread} {k : StopCaller} {r : RecvId} : s.frame t = .stop .join k r →
      t ≠ .worker r → (s.recv r).thread = .joinable → (s.recv r).pc = .exited →
      Step s (.exec t .ok) ((s.setRecv r { s.recv r with thread := .joined }).goto t
        (k.frame .qpidSuccess))
  -- `~QPIDReceiver`
  | dtorTest {t : Thread} {k : DtorCaller} {r : RecvId} : s.frame t = .dtor .test k r →
      (s.recv r).mReceivingActive = true → Step s (.exec t .ok) (s.goto t (.dtor .clear k r))
  | dtorInactive {t : Thread} {k : DtorCaller} {r : RecvId} : s.frame t = .dtor .test k r →
      (s.recv r).mReceivingActive = false → Step s (.exec t .ok) (s.goto t (.dtor .joinable k r))
  | dtorClear {t : Thread} {k : DtorCaller} {r : RecvId} : s.frame t = .dtor .clear k r →
      Step s (.exec t .ok) ((s.setRecv r { s.recv r with mReceivingActive := false }).goto t
        (.dtor .close k r))
  | dtorClose {t : Thread} {k : DtorCaller} {r : RecvId} : s.frame t = .dtor .close k r →
      Step s (.exec t .ok) ((s.setRecv r (s.recv r).closeConnection).goto t (.dtor .joinable k r))
  | dtorCloseThrow {t : Thread} {k : DtorCaller} {r : RecvId} : s.frame t = .dtor .close k r →
      Step s (.exec t .throw)
        { s.setRecv r (s.recv r).closeConnectionThrow with halted := some .destructorClose }
  | dtorJoinable {t : Thread} {k : DtorCaller} {r : RecvId} : s.frame t = .dtor .joinable k r →
      (s.recv r).thread = .joinable → Step s (.exec t .ok) (s.goto t (.dtor .join k r))
  | dtorNotJoinable {t : Thread} {k : DtorCaller} {r : RecvId} :
      s.frame t = .dtor .joinable k r → (s.recv r).thread ≠ .joinable →
      Step s (.exec t .ok) ((s.setRecv r { s.recv r with destroyed := true }).goto t k.frame)
  | dtorJoinThrow {t : Thread} {k : DtorCaller} {r : RecvId} : s.frame t = .dtor .join k r →
      (t = .worker r ∨ (s.recv r).thread ≠ .joinable) →
      Step s (.exec t .ok) { s with halted := some .destructorJoin }
  | dtorJoin {t : Thread} {k : DtorCaller} {r : RecvId} : s.frame t = .dtor .join k r →
      t ≠ .worker r → (s.recv r).thread = .joinable → (s.recv r).pc = .exited →
      Step s (.exec t .ok)
        ((s.setRecv r { s.recv r with thread := .joined, destroyed := true }).goto t k.frame)
  -- `~QPIDMessaging`
  | pickStop {t : Thread} {o : ObjId} {todo : List String} {e : String} {r : RecvId} :
      s.frame t = .stopAll o todo → e ∈ todo → (s.activeReceivers o).lookup e = some r →
      Step s (.pick t e) (s.goto t (.stop .test (.destructor o (todo.erase e)) r))
  | stopAllDone {t : Thread} {o : ObjId} : s.frame t = .stopAll o [] →
      Step s (.exec t .ok) (s.goto t (.clearAll o))
  | pickClear {t : Thread} {o : ObjId} {e : String} {r : RecvId} : s.frame t = .clearAll o →
      (s.activeReceivers o).lookup e = some r →
      Step s (.pick t e) ((s.setReg o ((s.activeReceivers o).erase e)).goto t
        (.dtor .test (.clear o) r))
  | clearAllDone {t : Thread} {o : ObjId} : s.frame t = .clearAll o →
      (s.activeReceivers o).entries = [] →
      Step s (.exec t .ok) (s.goto t (.idle (some .destroyed)))

namespace Step

variable {s s' : State}

theorem of_work {r : RecvId} {a : WorkerAct} (h : s.work r a = some s') :
    Step s (.work r a) s' := by
  unfold State.work at h
  split at h
  · rename_i hf hm hw
    cases h
    exact .work hf hm (Receiver.waitForMessages_cases hw)
  · cases h

theorem of_call {t : Thread} {c : Operation} (hr : s.ready t = true) :
    Step s (.call t c) (s.call t c) := by
  cases c with
  | qpidReceiveMessages o e callback =>
    cases callback with
    | false => exact .callEmpty hr
    | true =>
      simp only [State.call, if_true]
      split
      · exact .callAlready hr ‹_›
      · exact .callConstruct hr ‹_›
  | qpidReceiveStop o e =>
    simp only [State.call]
    split
    · exact .callInvalid hr ‹_›
    · exact .callIndex hr ‹_›
  | destructor o => exact .callDestructor hr

theorem of_receiveMessages {t : Thread} {o : ObjId} {e : String} {r : RecvId} {pc : StartPc}
    {x : Outcome} (hf : s.frame t = .start pc o e r)
    (h : s.receiveMessages t o e r pc x = some s') : Step s (.exec t x) s' := by
  cases pc <;> cases x <;> cases h
  · exact .openConnection hf
  · exact .startThrow hf (by simp)
  · exact .createSession hf
  · exact .startThrow hf (by simp)
  · exact .createReceiver hf
  · exact .startThrow hf (by simp)
  · exact .createThread hf
  · exact .startThrow hf (by simp)
  · exact .handler hf
  · exact .handlerThrow hf

theorem of_receiveStop {t : Thread} {k : StopCaller} {r : RecvId} {pc : StopPc} {x : Outcome}
    (hf : s.frame t = .stop pc k r) (h : s.receiveStop t k r pc x = some s') :
    Step s (.exec t x) s' := by
  cases pc <;> cases x <;> simp only [State.receiveStop] at h
  case test.ok =>
    split at h <;> cases h
    · exact .stopTest hf ‹_›
    · exact .stopInactive hf (eq_false_of_ne_true ‹_›)
  case clear.ok => cases h; exact .stopClear hf
  case close.ok => cases h; exact .stopClose hf
  case close.throw => cases h; exact .stopCloseThrow hf
  case joinable.ok =>
    split at h <;> cases h
    · exact .stopJoinable hf ‹_›
    · exact .stopNotJoinable hf ‹_›
  case join.ok =>
    split at h
    · cases h; exact .stopJoinThrow hf ‹_›
    · rename_i hne
      push Not at hne
      split at h <;> cases h
      exact .stopJoin hf hne.1 hne.2 ‹_›
  all_goals cases h

theorem of_destroyReceiver {t : Thread} {k : DtorCaller} {r : RecvId} {pc : DtorPc} {x : Outcome}
    (hf : s.frame t = .dtor pc k r) (h : s.destroyReceiver t k r pc x = some s') :
    Step s (.exec t x) s' := by
  cases pc <;> cases x <;> simp only [State.destroyReceiver] at h
  case test.ok =>
    split at h <;> cases h
    · exact .dtorTest hf ‹_›
    · exact .dtorInactive hf (eq_false_of_ne_true ‹_›)
  case clear.ok => cases h; exact .dtorClear hf
  case close.ok => cases h; exact .dtorClose hf
  case close.throw => cases h; exact .dtorCloseThrow hf
  case joinable.ok =>
    split at h <;> cases h
    · exact .dtorJoinable hf ‹_›
    · exact .dtorNotJoinable hf ‹_›
  case join.ok =>
    split at h
    · cases h; exact .dtorJoinThrow hf ‹_›
    · rename_i hne
      push Not at hne
      split at h <;> cases h
      exact .dtorJoin hf hne.1 hne.2 ‹_›
  all_goals cases h

theorem of_exec {t : Thread} {x : Outcome} (h : s.exec t x = some s') : Step s (.exec t x) s' := by
  unfold State.exec at h
  split at h
  case h_1 hf => cases h; exact .construct hf
  case h_2 hf => cases h; exact .constructThrow hf
  case h_3 hf => exact of_receiveMessages hf h
  case h_4 hf =>
    split at h <;> cases h
    · exact .emplace hf ‹_›
    · exact .emplaceTaken hf ‹_›
  case h_5 hf =>
    split at h <;> cases h
    · exact .index hf ‹_›
    · exact .indexNull hf ‹_›
  case h_6 hf => exact of_receiveStop hf h
  case h_7 hf =>
    split at h <;> cases h
    · exact .erase hf ‹_›
    · exact .eraseNone hf ‹_›
  case h_8 hf => exact of_destroyReceiver hf h
  case h_9 hf => cases h; exact .stopAllDone hf
  case h_10 hf =>
    split at h <;> cases h
    exact .clearAllDone hf ‹_›
  case h_11 => cases h

theorem of_pick {t : Thread} {e : String} (h : s.pick t e = some s') : Step s (.pick t e) s' := by
  unfold State.pick at h
  split at h
  · rename_i hf
    split at h
    · split at h <;> cases h
      exact .pickStop hf ‹_› ‹_›
    · cases h
  · rename_i hf
    split at h <;> cases h
    exact .pickClear hf ‹_›
  · cases h

end Step

/-- **The list of steps is complete.** -/
theorem step_cases {s s' : State} {l : Label} (h : qpid.step s l = some s') :
    s.halted = none ∧ Step s l s' := by
  change s.step l = some s' at h
  unfold State.step at h
  split at h
  · cases h
  · rename_i hh
    refine ⟨by simpa using hh, ?_⟩
    cases l with
    | work r a => exact Step.of_work h
    | call t c =>
      simp only at h
      split at h <;> cases h
      exact Step.of_call ‹_›
    | exec t x => exact Step.of_exec h
    | pick t e => exact Step.of_pick h
    | lost r => cases h; exact .lost

/-! ### Frames -/

/-- The thread that takes the step, if it is not a step of `waitForMessages`. -/
def Label.thread : Label → Option Thread
  | .call t _ | .exec t _ | .pick t _ => some t
  | .work _ _ | .lost _ => none

/-- The thread that takes a step. -/
def Label.actor : Label → Option Thread
  | .work r _ => some (.worker r)
  | .call t _ | .exec t _ | .pick t _ => some t
  | .lost _ => none

/-- Past the accesses to `mReceivingActive` in `receiveStop`. -/
def StopPc.pastFlag : StopPc → Bool
  | test | clear => false
  | close | joinable | join => true

/-- Past the accesses to `mReceivingActive` in `~QPIDReceiver`. -/
def DtorPc.pastFlag : DtorPc → Bool
  | test | clear => false
  | close | joinable | join => true

/-- The receiver an operation works on. -/
def Frame.recv : Frame → Option RecvId
  | .start _ _ _ r => some r
  | .emplace _ _ r => some r
  | .stop _ _ r => some r
  | .dtor _ _ r => some r
  | .idle _ | .construct _ _ | .index _ _ | .erase _ _ _ | .stopAll _ _ | .clearAll _ => none

/-- The operation works on a receiver that no registry and no other thread knows yet. -/
def Frame.builds (r : RecvId) : Frame → Prop
  | .start _ _ _ q => q = r
  | .emplace _ _ q => q = r
  | .stop _ _ _ | .dtor _ _ _ => False
  | .idle _ | .construct _ _ | .index _ _ | .erase _ _ _ | .stopAll _ _ | .clearAll _ => False

/-- The operation works on a receiver that is in no registry. -/
def Frame.holds (r : RecvId) : Frame → Prop
  | .start _ _ _ q => q = r
  | .emplace _ _ q => q = r
  | .dtor _ _ q => q = r
  | .stop _ _ _ => False
  | .idle _ | .construct _ _ | .index _ _ | .erase _ _ _ | .stopAll _ _ | .clearAll _ => False

/-- The operation has found `mReceivingActive` set, and is about to clear it. -/
def Frame.clears (r : RecvId) : Frame → Prop
  | .stop pc _ q => pc = .clear ∧ q = r
  | .dtor pc _ q => pc = .clear ∧ q = r
  | .start _ _ _ _ | .emplace _ _ _ => False
  | .idle _ | .construct _ _ | .index _ _ | .erase _ _ _ | .stopAll _ _ | .clearAll _ => False

/-- The operation is about to call `closeConnection` on the receiver. -/
def Frame.closes (r : RecvId) : Frame → Prop
  | .start pc _ _ q => pc = .handler ∧ q = r
  | .stop pc _ q => pc = .close ∧ q = r
  | .dtor pc _ q => pc = .close ∧ q = r
  | .emplace _ _ _ => False
  | .idle _ | .construct _ _ | .index _ _ | .erase _ _ _ | .stopAll _ _ | .clearAll _ => False

/-- The operation waits to join the worker of the receiver. -/
def Frame.joins (r : RecvId) : Frame → Prop
  | .stop pc _ q => pc = .join ∧ q = r
  | .dtor pc _ q => pc = .join ∧ q = r
  | .start _ _ _ _ | .emplace _ _ _ => False
  | .idle _ | .construct _ _ | .index _ _ | .erase _ _ _ | .stopAll _ _ | .clearAll _ => False

-- These are used through their values at each constructor.
attribute [simp] Frame.recv.eq_1 Frame.recv.eq_2 Frame.recv.eq_3 Frame.recv.eq_4 Frame.recv.eq_5
  Frame.recv.eq_6 Frame.recv.eq_7 Frame.recv.eq_8 Frame.recv.eq_9 Frame.recv.eq_10
attribute [simp] Frame.builds.eq_1 Frame.builds.eq_2 Frame.builds.eq_3 Frame.builds.eq_4
  Frame.builds.eq_5 Frame.builds.eq_6 Frame.builds.eq_7 Frame.builds.eq_8 Frame.builds.eq_9
  Frame.builds.eq_10
attribute [simp] Frame.holds.eq_1 Frame.holds.eq_2 Frame.holds.eq_3 Frame.holds.eq_4
  Frame.holds.eq_5 Frame.holds.eq_6 Frame.holds.eq_7 Frame.holds.eq_8 Frame.holds.eq_9
  Frame.holds.eq_10
attribute [simp] Frame.clears.eq_1 Frame.clears.eq_2 Frame.clears.eq_3 Frame.clears.eq_4
  Frame.clears.eq_5 Frame.clears.eq_6 Frame.clears.eq_7 Frame.clears.eq_8 Frame.clears.eq_9
  Frame.clears.eq_10
attribute [simp] Frame.closes.eq_1 Frame.closes.eq_2 Frame.closes.eq_3 Frame.closes.eq_4
  Frame.closes.eq_5 Frame.closes.eq_6 Frame.closes.eq_7 Frame.closes.eq_8 Frame.closes.eq_9
  Frame.closes.eq_10
attribute [simp] Frame.joins.eq_1 Frame.joins.eq_2 Frame.joins.eq_3 Frame.joins.eq_4
  Frame.joins.eq_5 Frame.joins.eq_6 Frame.joins.eq_7 Frame.joins.eq_8 Frame.joins.eq_9
  Frame.joins.eq_10

namespace Frame

variable {f : Frame} {r : RecvId}

theorem recv_of_builds (h : f.builds r) : f.recv = some r := by
  cases f <;> simp_all

theorem holds_of_builds (h : f.builds r) : f.holds r := by
  cases f <;> simp_all

theorem recv_of_holds (h : f.holds r) : f.recv = some r := by
  cases f <;> simp_all

theorem recv_of_clears (h : f.clears r) : f.recv = some r := by
  cases f <;> simp_all

theorem recv_of_closes (h : f.closes r) : f.recv = some r := by
  cases f <;> simp_all

theorem recv_of_joins (h : f.joins r) : f.recv = some r := by
  cases f <;> simp_all

end Frame

section Callers

variable (k : StopCaller) (d : DtorCaller) (st : QPIDStatus) (r : RecvId)

@[simp] theorem StopCaller.recv_frame : (k.frame st).recv = none := by cases k <;> rfl
@[simp] theorem StopCaller.not_builds : ¬ (k.frame st).builds r := by cases k <;> simp [frame]
@[simp] theorem StopCaller.not_holds : ¬ (k.frame st).holds r := by cases k <;> simp [frame]
@[simp] theorem StopCaller.not_clears : ¬ (k.frame st).clears r := by cases k <;> simp [frame]
@[simp] theorem StopCaller.not_closes : ¬ (k.frame st).closes r := by cases k <;> simp [frame]
@[simp] theorem StopCaller.not_joins : ¬ (k.frame st).joins r := by cases k <;> simp [frame]

@[simp] theorem StopCaller.frame_ne_start (pc : StartPc) (o : ObjId) (e : String) :
    k.frame st ≠ .start pc o e r := by cases k <;> simp [frame]
@[simp] theorem StopCaller.frame_ne_emplace (o : ObjId) (e : String) :
    k.frame st ≠ .emplace o e r := by cases k <;> simp [frame]
@[simp] theorem StopCaller.frame_ne_stop (pc : StopPc) (k' : StopCaller) :
    k.frame st ≠ .stop pc k' r := by cases k <;> simp [frame]
@[simp] theorem StopCaller.frame_ne_dtor (pc : DtorPc) (d : DtorCaller) :
    k.frame st ≠ .dtor pc d r := by cases k <;> simp [frame]

@[simp] theorem DtorCaller.recv_frame : d.frame.recv = none := by cases d <;> rfl
@[simp] theorem DtorCaller.not_builds : ¬ d.frame.builds r := by cases d <;> simp [frame]
@[simp] theorem DtorCaller.not_holds : ¬ d.frame.holds r := by cases d <;> simp [frame]
@[simp] theorem DtorCaller.not_clears : ¬ d.frame.clears r := by cases d <;> simp [frame]
@[simp] theorem DtorCaller.not_closes : ¬ d.frame.closes r := by cases d <;> simp [frame]
@[simp] theorem DtorCaller.not_joins : ¬ d.frame.joins r := by cases d <;> simp [frame]
@[simp] theorem DtorCaller.frame_ne_start (pc : StartPc) (o : ObjId) (e : String) :
    d.frame ≠ .start pc o e r := by cases d <;> simp [frame]
@[simp] theorem DtorCaller.frame_ne_emplace (o : ObjId) (e : String) :
    d.frame ≠ .emplace o e r := by cases d <;> simp [frame]
@[simp] theorem DtorCaller.frame_ne_stop (pc : StopPc) (k : StopCaller) :
    d.frame ≠ .stop pc k r := by cases d <;> simp [frame]
@[simp] theorem DtorCaller.frame_ne_dtor (pc : DtorPc) (d' : DtorCaller) :
    d.frame ≠ .dtor pc d' r := by cases d <;> simp [frame]

end Callers

namespace State

variable {s : State}

theorem idle_of_ready {t : Thread} (h : s.ready t = true) : ∃ last, s.frame t = .idle last := by
  cases t <;> simp only [ready] at h
  all_goals
    split at h
    · exact ⟨_, ‹_›⟩
    · cases h

/-- A worker is in its callback when the callback enters an operation. -/
theorem inCallback_of_ready {r : RecvId} (h : s.ready (.worker r) = true) :
    (s.recv r).pc.inCallback = true := by
  simp only [ready] at h
  split at h
  · exact h
  · cases h

end State

namespace Step

variable {s s' : State} {l : Label}

/-- A step changes no frame but that of the thread that takes it. -/
theorem frame_of_ne (h : Step s l s') {u : Thread} (hu : l.thread ≠ some u) :
    s'.frame u = s.frame u := by
  cases h <;> first
    | rfl
    | exact Function.update_of_ne (fun hut => hu (congrArg some hut.symm)) _ _

/-- The receiver an operation works on after a step is the one it worked on before, a receiver
just constructed, or one taken from a registry. -/
theorem recv_of_frame (h : Step s l s') {u : Thread} {r : RecvId}
    (hu : (s'.frame u).recv = some r) :
    (s.frame u).recv = some r ∨
      (s'.frame u).builds r ∧ r = s.next ∧ l.thread = some u ∧ s'.next = s.next + 1 ∨
      ¬ (s'.frame u).builds r ∧ l.thread = some u ∧
        ∃ o e, (s.activeReceivers o).lookup e = some r := by
  by_cases ht : l.thread = some u
  · cases h <;> simp_all [Label.thread]
    all_goals exact ⟨_, _, by subst_vars; assumption⟩
  · rw [h.frame_of_ne ht] at hu
    exact Or.inl hu

end Step

/-- A run changes only the frames of the threads that take part in it. -/
theorem frame_of_run {s s' : State} {ls : List Label} (h : qpid.run s ls = some s') {u : Thread}
    (hu : ∀ l ∈ ls, l.thread ≠ some u) : s'.frame u = s.frame u :=
  Conc.Machine.eq_of_run (f := fun s => s.frame u)
    (fun _ _ _ hl hst => (step_cases hst).2.frame_of_ne hl) h hu

/-- In a run in which only `t` executes operations, the other threads execute none. -/
theorem frame_of_run_of_ne {s : State} {ls : List Label} {t u : Thread}
    (h : qpid.run State.init ls = some s)
    (ht : ∀ l ∈ ls, l.thread = none ∨ l.thread = some t) (hu : u ≠ t) :
    s.frame u = .idle none := by
  refine frame_of_run h fun l hl hlu => ?_
  rcases ht l hl with hnone | hsome
  · rw [hnone] at hlu
    cases hlu
  · exact hu (Option.some.inj (hlu.symm.trans hsome))

/-! ### One operation -/

/-- How an operation can go on from one frame to the next by a step from `s` to `s'`. -/
inductive FrameMove (s s' : State) : Frame → Frame → Prop
  | constructed {o : ObjId} {e : String} {r : RecvId} :
      s'.activeReceivers = s.activeReceivers →
      FrameMove s s' (.construct o e) (.start .openConnection o e r)
  | constructThrew {o : ObjId} {e : String} : s'.activeReceivers = s.activeReceivers →
      FrameMove s s' (.construct o e) (.idle (some .threw))
  /-- `receiveMessages` goes on. -/
  | starting {pc pc' : StartPc} {o : ObjId} {e : String} {r : RecvId} :
      s'.activeReceivers = s.activeReceivers →
      FrameMove s s' (.start pc o e r) (.start pc' o e r)
  | spawned {o : ObjId} {e : String} {r : RecvId} : s'.activeReceivers = s.activeReceivers →
      FrameMove s s' (.start .createThread o e r) (.emplace o e r)
  /-- `receiveMessages` has failed. -/
  | startFailed {o : ObjId} {e : String} {r : RecvId} {res : Result} :
      res = .status .qpidError ∨ res = .threw → s'.activeReceivers = s.activeReceivers →
      FrameMove s s' (.start .handler o e r) (.dtor .test (.operation res) r)
  | emplaced {o : ObjId} {e : String} {r : RecvId} : (s.activeReceivers o).lookup e = none →
      s'.activeReceivers = (s.setReg o ((s.activeReceivers o).insert e r)).activeReceivers →
      FrameMove s s' (.emplace o e r) (.idle (some (.status .qpidSuccess)))
  | emplaceTaken {o : ObjId} {e : String} {r q : RecvId} :
      (s.activeReceivers o).lookup e = some q → s'.activeReceivers = s.activeReceivers →
      FrameMove s s' (.emplace o e r) (.dtor .test (.operation (.status .qpidSuccess)) r)
  | indexed {o : ObjId} {e : String} {r : RecvId} : (s.activeReceivers o).lookup e = some r →
      s'.activeReceivers = s.activeReceivers →
      FrameMove s s' (.index o e) (.stop .test (.receiveStop o e) r)
  /-- `receiveStop` goes on. -/
  | stopping {pc pc' : StopPc} {k : StopCaller} {r : RecvId} :
      s'.activeReceivers = s.activeReceivers → FrameMove s s' (.stop pc k r) (.stop pc' k r)
  /-- `receiveStop` returns. -/
  | stopped {pc : StopPc} {k : StopCaller} {r : RecvId} {st : QPIDStatus} :
      s'.activeReceivers = s.activeReceivers → FrameMove s s' (.stop pc k r) (k.frame st)
  | erased {o : ObjId} {e : String} {st : QPIDStatus} {r : RecvId} :
      (s.activeReceivers o).lookup e = some r →
      s'.activeReceivers = (s.setReg o ((s.activeReceivers o).erase e)).activeReceivers →
      FrameMove s s' (.erase o e st) (.dtor .test (.operation (.status st)) r)
  | eraseNone {o : ObjId} {e : String} {st : QPIDStatus} :
      (s.activeReceivers o).lookup e = none → s'.activeReceivers = s.activeReceivers →
      FrameMove s s' (.erase o e st) (.idle (some (.status st)))
  /-- `~QPIDReceiver` goes on. -/
  | destroying {pc pc' : DtorPc} {k : DtorCaller} {r : RecvId} :
      s'.activeReceivers = s.activeReceivers → FrameMove s s' (.dtor pc k r) (.dtor pc' k r)
  /-- `~QPIDReceiver` returns. -/
  | destroyed {pc : DtorPc} {k : DtorCaller} {r : RecvId} :
      s'.activeReceivers = s.activeReceivers → FrameMove s s' (.dtor pc k r) k.frame
  /-- `~QPIDMessaging` goes on. -/
  | pickedStop {o : ObjId} {todo : List String} {e : String} {r : RecvId} :
      (s.activeReceivers o).lookup e = some r → s'.activeReceivers = s.activeReceivers →
      FrameMove s s' (.stopAll o todo) (.stop .test (.destructor o (todo.erase e)) r)
  | allStopped {o : ObjId} : s'.activeReceivers = s.activeReceivers →
      FrameMove s s' (.stopAll o []) (.clearAll o)
  | pickedClear {o : ObjId} {e : String} {r : RecvId} :
      (s.activeReceivers o).lookup e = some r →
      s'.activeReceivers = (s.setReg o ((s.activeReceivers o).erase e)).activeReceivers →
      FrameMove s s' (.clearAll o) (.dtor .test (.clear o) r)
  | allCleared {o : ObjId} : (s.activeReceivers o).entries = [] →
      s'.activeReceivers = s.activeReceivers →
      FrameMove s s' (.clearAll o) (.idle (some .destroyed))
  /-- The process has ended. -/
  | halted {f : Frame} : s'.halted ≠ none → s'.activeReceivers = s.activeReceivers →
      FrameMove s s' f f

/-- The constructors of `FrameMove` cover the steps of an operation after its call. -/
theorem Step.frame_move {s s' : State} {l : Label} (h : Step s l s') {t : Thread}
    (hl : l.thread = some t) (hcall : ∀ c, l ≠ .call t c) :
    FrameMove s s' (s.frame t) (s'.frame t) := by
  cases h <;> cases hl
  case callEmpty | callAlready | callConstruct | callInvalid | callIndex | callDestructor =>
    exact absurd rfl (hcall _)
  case construct hf => simpa [hf] using .constructed rfl
  case constructThrow hf => simpa [hf] using .constructThrew rfl
  case openConnection hf | createSession hf | createReceiver hf | startThrow _ hf =>
    simpa [hf] using .starting rfl
  case createThread hf => simpa [hf] using .spawned rfl
  case handler hf => simpa [hf] using .startFailed (Or.inl rfl) rfl
  case handlerThrow hf => simpa [hf] using .startFailed (Or.inr rfl) rfl
  case emplace hnone hf => simpa [hf] using .emplaced hnone rfl
  case emplaceTaken hq hf => simpa [hf] using .emplaceTaken hq rfl
  case index hr hf => simpa [hf] using .indexed hr rfl
  case erase hr hf => simpa [hf] using .erased hr rfl
  case eraseNone hnone hf => simpa [hf] using .eraseNone hnone rfl
  case stopTest _ hf | stopClear hf | stopClose hf | stopJoinable _ hf =>
    simpa [hf] using .stopping rfl
  case stopInactive _ hf | stopCloseThrow hf | stopNotJoinable _ hf | stopJoinThrow hf _
    | stopJoin _ _ hf _ => simpa [hf] using .stopped rfl
  case dtorTest _ hf | dtorInactive _ hf | dtorClear hf | dtorClose hf | dtorJoinable _ hf =>
    simpa [hf] using .destroying rfl
  case dtorNotJoinable _ hf | dtorJoin _ _ hf _ => simpa [hf] using .destroyed rfl
  case pickStop _ hr hf => simpa [hf] using .pickedStop hr rfl
  case stopAllDone hf => simpa [hf] using .allStopped rfl
  case pickClear hr hf => simpa [hf] using .pickedClear hr rfl
  case clearAllDone hnil hf => simpa [hf] using .allCleared hnil rfl
  case indexNull | dtorCloseThrow | dtorJoinThrow => exact .halted (by simp) rfl

/-! ### One receiver -/

/-- What a step from `s` to `s'` can do to the receiver `r`.  The last index is the receiver
after the step. -/
inductive RecvMove (s s' : State) (r : RecvId) : Label → Receiver → Prop
  | same {l : Label} : RecvMove s s' r l (s.recv r)
  /-- A step of its worker. -/
  | work {a : WorkerAct} {R : Receiver} : WorkStep (s.recv r) a R →
      RecvMove s s' r (.work r a) R
  /-- Its connection is lost. -/
  | lost : RecvMove s s' r (.lost r) { s.recv r with isOpen := false }
  | opened {t : Thread} {o : ObjId} {e : String} : s.frame t = .start .openConnection o e r →
      s'.frame t = .start .createSession o e r →
      RecvMove s s' r (.exec t .ok) { s.recv r with isOpen := true }
  | named {t : Thread} {o : ObjId} {e : String} : s.frame t = .start .createSession o e r →
      s'.frame t = .start .createReceiver o e r →
      RecvMove s s' r (.exec t .ok) { s.recv r with mExchange := e }
  | activated {t : Thread} {o : ObjId} {e : String} : s.frame t = .start .createReceiver o e r →
      s'.frame t = .start .createThread o e r →
      RecvMove s s' r (.exec t .ok) { s.recv r with mReceivingActive := true }
  /-- Its worker thread is created. -/
  | spawned {t : Thread} {o : ObjId} {e : String} : s.frame t = .start .createThread o e r →
      s'.frame t = .emplace o e r →
      RecvMove s s' r (.exec t .ok) { s.recv r with thread := .joinable, pc := .test }
  /-- `mReceivingActive` is cleared by the thread that will close the connection. -/
  | deactivated {t : Thread} : (s.frame t).clears r → (s'.frame t).closes r →
      ¬ (s'.frame t).builds r →
      RecvMove s s' r (.exec t .ok) { s.recv r with mReceivingActive := false }
  | closed {t : Thread} : (s.frame t).closes r → ¬ (s'.frame t).closes r →
      RecvMove s s' r (.exec t .ok) (s.recv r).closeConnection
  | closeThrew {t : Thread} : (s.frame t).closes r → (¬ (s'.frame t).closes r ∨ s'.halted ≠ none) →
      RecvMove s s' r (.exec t .throw) (s.recv r).closeConnectionThrow
  /-- Its worker is joined in `receiveStop`. -/
  | joined {t : Thread} {k : StopCaller} : s.frame t = .stop .join k r →
      (s.recv r).thread = .joinable → (s.recv r).pc = .exited →
      RecvMove s s' r (.exec t .ok) { s.recv r with thread := .joined }
  /-- `~QPIDReceiver` ends without a thread to join. -/
  | destroyed {t : Thread} {k : DtorCaller} : s.frame t = .dtor .joinable k r →
      s'.frame t = k.frame → (s.recv r).thread ≠ .joinable →
      RecvMove s s' r (.exec t .ok) { s.recv r with destroyed := true }
  /-- `~QPIDReceiver` ends after joining the worker. -/
  | joinDestroyed {t : Thread} {k : DtorCaller} : s.frame t = .dtor .join k r →
      s'.frame t = k.frame → (s.recv r).thread = .joinable → (s.recv r).pc = .exited →
      RecvMove s s' r (.exec t .ok) { s.recv r with thread := .joined, destroyed := true }

/-- A step of a worker. -/
theorem Step.work_step {s s' : State} {r : RecvId} {a : WorkerAct} (h : Step s (.work r a) s') :
    WorkStep (s.recv r) a (s'.recv r) := by
  cases h with
  | work _ _ hw => simpa using hw

theorem Step.recv_of_work_ne {s s' : State} {r q : RecvId} {a : WorkerAct}
    (h : Step s (.work q a) s') (hrq : r ≠ q) : s'.recv r = s.recv r := by
  cases h with
  | work => simp [hrq]

/-- The constructors of `RecvMove` cover every step. -/
theorem Step.recv_move {s s' : State} {l : Label} (h : Step s l s') (r : RecvId) :
    RecvMove s s' r l (s'.recv r) := by
  -- a step that writes the receiver `q` leaves every other receiver alone
  have other : ∀ {q : RecvId} {R : Receiver}, r ≠ q →
      RecvMove s s' r l ((s.setRecv q R).recv r) := by
    intro q R hne
    rw [State.setRecv_recv, if_neg hne]
    exact .same
  cases h
  case work q a last mMutex R hf hm hw =>
    by_cases hr : r = q
    · subst hr; simpa using RecvMove.work hw
    · exact other hr
  case lost q =>
    by_cases hr : r = q
    · subst hr; simpa using RecvMove.lost
    · exact other hr
  case openConnection t o e q hf =>
    by_cases hr : r = q
    · subst hr; simpa using RecvMove.opened hf (by simp)
    · exact other hr
  case createSession t o e q hf =>
    by_cases hr : r = q
    · subst hr; simpa using RecvMove.named hf (by simp)
    · exact other hr
  case createReceiver t o e q hf =>
    by_cases hr : r = q
    · subst hr; simpa using RecvMove.activated hf (by simp)
    · exact other hr
  case createThread t o e q hf =>
    by_cases hr : r = q
    · subst hr; simpa using RecvMove.spawned hf (by simp)
    · exact other hr
  case handler t o e q hf =>
    by_cases hr : r = q
    · subst hr; simpa using RecvMove.closed (by simp [hf]) (by simp)
    · exact other hr
  case handlerThrow t o e q hf =>
    by_cases hr : r = q
    · subst hr; simpa using RecvMove.closeThrew (by simp [hf]) (by simp)
    · exact other hr
  case stopClear t k q hf =>
    by_cases hr : r = q
    · subst hr; simpa using RecvMove.deactivated (by simp [hf]) (by simp) (by simp)
    · exact other hr
  case stopClose t k q hf =>
    by_cases hr : r = q
    · subst hr; simpa using RecvMove.closed (by simp [hf]) (by simp)
    · exact other hr
  case stopCloseThrow t k q hf =>
    by_cases hr : r = q
    · subst hr; simpa using RecvMove.closeThrew (by simp [hf]) (by simp)
    · exact other hr
  case stopJoin t k q hf hne hj hx =>
    by_cases hr : r = q
    · subst hr; simpa using RecvMove.joined hf hj hx
    · exact other hr
  case dtorClear t k q hf =>
    by_cases hr : r = q
    · subst hr; simpa using RecvMove.deactivated (by simp [hf]) (by simp) (by simp)
    · exact other hr
  case dtorClose t k q hf =>
    by_cases hr : r = q
    · subst hr; simpa using RecvMove.closed (by simp [hf]) (by simp)
    · exact other hr
  case dtorCloseThrow t k q hf =>
    by_cases hr : r = q
    · subst hr; simpa using RecvMove.closeThrew (by simp [hf]) (by simp)
    · exact other hr
  case dtorNotJoinable t k q hf hj =>
    by_cases hr : r = q
    · subst hr; simpa using RecvMove.destroyed hf (by simp) hj
    · exact other hr
  case dtorJoin t k q hf hne hj hx =>
    by_cases hr : r = q
    · subst hr; simpa using RecvMove.joinDestroyed hf (by simp) hj hx
    · exact other hr
  all_goals exact .same

/-- An operation about to close a connection is so until it calls `closeConnection`. -/
theorem Step.closes_cases {s s' : State} {l : Label} (h : Step s l s') {t : Thread} {r : RecvId}
    (ht : (s.frame t).closes r) :
    (s'.frame t).closes r ∨ s'.recv r = (s.recv r).closeConnection ∨
      s'.recv r = (s.recv r).closeConnectionThrow ∧ l = .exec t .throw ∧
        ((s.frame t).builds r ∨ ∃ k, s.frame t = .stop .close k r) := by
  by_cases hl : l.thread = some t
  · have hidle := @State.idle_of_ready s t
    cases h <;> simp_all [Label.thread]
    all_goals grind [Frame.closes]
  · rw [h.frame_of_ne hl]
    exact Or.inl ht

/-! ### One entry of a registry -/

theorem Registry.lookup_insert (reg : Registry) (e f : String) (r : RecvId) :
    AList.lookup f (reg.insert e r) = if f = e then some r else reg.lookup f := by
  split_ifs with h
  · subst h
    exact AList.lookup_insert reg
  · exact AList.lookup_insert_ne h

theorem Registry.lookup_erase (reg : Registry) (e f : String) :
    AList.lookup f (reg.erase e) = if f = e then none else reg.lookup f := by
  split_ifs with h
  · subst h
    exact AList.lookup_erase f reg
  · exact AList.lookup_erase_ne h

/-- An update of the entry of `f` at `p` keeps every other entry. -/
theorem State.lookup_setReg_of_ne (s : State) {o p : ObjId} {e f : String} {reg : Registry}
    (hk : ¬ (o = p ∧ e = f)) (hreg : e ≠ f → reg.lookup e = (s.activeReceivers p).lookup e) :
    ((s.setReg p reg).activeReceivers o).lookup e = (s.activeReceivers o).lookup e := by
  rw [State.setReg_activeReceivers]
  split_ifs with hp
  · subst hp
    exact hreg fun he => hk ⟨rfl, he⟩
  · rfl

/-- `e` is registered at `o`, with the receiver `r`. -/
def State.Registered (s : State) (o : ObjId) (e : String) (r : RecvId) : Prop :=
  (s.activeReceivers o).lookup e = some r

/-- What a step from `s` to `s'` can do to the entry of `e` in the registry of `o`.  The last
index is the entry after the step. -/
inductive RegMove (s s' : State) (o : ObjId) (e : String) : Label → Option RecvId → Prop
  | same {l : Label} : RegMove s s' o e l ((s.activeReceivers o).lookup e)
  | inserted {t : Thread} {r : RecvId} : s.frame t = .emplace o e r →
      (s.activeReceivers o).lookup e = none →
      s'.frame t = .idle (some (.status .qpidSuccess)) → RegMove s s' o e (.exec t .ok) (some r)
  | erased {t : Thread} {st : QPIDStatus} {r : RecvId} : s.frame t = .erase o e st →
      s.Registered o e r → s'.frame t = .dtor .test (.operation (.status st)) r →
      RegMove s s' o e (.exec t .ok) none
  | cleared {t : Thread} {r : RecvId} : s.frame t = .clearAll o → s.Registered o e r →
      s'.frame t = .dtor .test (.clear o) r → RegMove s s' o e (.pick t e) none

/-- The constructors of `RegMove` cover every step. -/
theorem Step.reg_move {s s' : State} {l : Label} (h : Step s l s') (o : ObjId) (e : String) :
    RegMove s s' o e l ((s'.activeReceivers o).lookup e) := by
  cases h
  case emplace t p f r hf hnone =>
    by_cases hk : o = p ∧ e = f
    · obtain ⟨rfl, rfl⟩ := hk
      simpa [Registry.lookup_insert] using RegMove.inserted hf hnone (by simp)
    · rw [State.goto_activeReceivers, s.lookup_setReg_of_ne hk fun he => by
        rw [Registry.lookup_insert, if_neg he]]
      exact .same
  case erase t p f st r hf hr =>
    by_cases hk : o = p ∧ e = f
    · obtain ⟨rfl, rfl⟩ := hk
      simpa [Registry.lookup_erase] using RegMove.erased hf hr (by simp)
    · rw [State.goto_activeReceivers, s.lookup_setReg_of_ne hk fun he => by
        rw [Registry.lookup_erase, if_neg he]]
      exact .same
  case pickClear t p f r hf hr =>
    by_cases hk : o = p ∧ e = f
    · obtain ⟨rfl, rfl⟩ := hk
      simpa [Registry.lookup_erase] using RegMove.cleared hf hr (by simp)
    · rw [State.goto_activeReceivers, s.lookup_setReg_of_ne hk fun he => by
        rw [Registry.lookup_erase, if_neg he]]
      exact .same
  all_goals exact .same

end Comyno
