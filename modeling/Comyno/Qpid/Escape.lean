import Comyno.Qpid.Sender

/-!
# Exceptions that leave an operation

`qpidSendMessage`, `qpidSendInvalidMessage` and `qpidReceiveMessages` report failures as a status.
Each has a try block, but some calls of the connector are not covered by it: `createConnection`, in
the constructor of the sender or receiver, `closeConnection`, in the catch block itself, and
`closeConnection` in `~QPIDReceiver`, which a failed `qpidReceiveMessages` executes.

## Main results

* `returns_status` : one of these calls takes at most eleven steps and can take the next one until
  it ends; and when it ends, it returns a status, which is `QPID_ERROR` if any call of the connector
  threw, exactly when no call outside the try block threw.
* `calls_throw` : runs in which an exception leaves such a call.
-/

namespace Comyno

/-! ### `qpidReceiveMessages` -/

/-- The frames of `qpidReceiveMessages`, and its end. -/
inductive Frame.Starting : Frame → Prop
  | construct {o : ObjId} {e : String} : Starting (.construct o e)
  | start {pc : StartPc} {o : ObjId} {e : String} {r : RecvId} : Starting (.start pc o e r)
  | emplace {o : ObjId} {e : String} {r : RecvId} : Starting (.emplace o e r)
  | dtor {pc : DtorPc} {res : Result} {r : RecvId} : res ≠ .destroyed →
      Starting (.dtor pc (.operation res) r)
  | ended {res : Result} : res ≠ .destroyed → Starting (.idle (some res))

/-- An exception leaves `qpidReceiveMessages`, or has left it. -/
def Frame.Threw (f : Frame) : Prop :=
  f = .idle (some .threw) ∨ ∃ pc r, f = .dtor pc (.operation .threw) r

/-- `qpidReceiveMessages` does not return `QPID_SUCCESS` any more. -/
def Frame.Failed (f : Frame) : Prop :=
  f.Threw ∨ f = .idle (some (.status .qpidError)) ∨
    (∃ pc r, f = .dtor pc (.operation (.status .qpidError)) r) ∨ ∃ o e r, f = .start .handler o e r

/-- The number of steps `qpidReceiveMessages` has left, at most. -/
def Frame.startRank : Frame → ℕ
  | .construct _ _ => 11
  | .start .openConnection _ _ _ => 10
  | .start .createSession _ _ _ => 9
  | .start .createReceiver _ _ _ => 8
  | .start .createThread _ _ _ => 7
  | .start .handler _ _ _ => 6
  | .emplace _ _ _ => 6
  | .dtor .test _ _ => 5
  | .dtor .clear _ _ => 4
  | .dtor .close _ _ => 3
  | .dtor .joinable _ _ => 2
  | .dtor .join _ _ => 1
  | _ => 0

/-- `t` executes `qpidReceiveMessages`, or has ended it. -/
structure Starts (s : State) (t : Thread) : Prop where
  frame : (s.frame t).Starting
  /-- No other operation works on its receiver. -/
  alone : ∀ r u, (s.frame t).recv = some r → (s.frame u).recv = some r → u = t
  /-- The worker of its receiver is another thread. -/
  own : ∀ r, (s.frame t).recv = some r → t ≠ .worker r
  /-- A receiver that failed to start has no thread to join. -/
  thread : ∀ pc res r, s.frame t = .dtor pc (.operation res) r → res ≠ .status .qpidSuccess →
    (s.recv r).thread = .none ∧ pc ≠ .join
  joinable : ∀ res r, s.frame t = .dtor .join (.operation res) r → (s.recv r).thread = .joinable

/-- What `t` does next in `qpidReceiveMessages`: its frame before the step, the outcome of the step,
and its frame after it. -/
inductive StartMove (s s' : State) : Frame → Outcome → Frame → Prop
  | constructed {o : ObjId} {e : String} :
      StartMove s s' (.construct o e) .ok (.start .openConnection o e s.next)
  | constructThrew {o : ObjId} {e : String} :
      StartMove s s' (.construct o e) .throw (.idle (some .threw))
  | advanced {pc pc' : StartPc} {o : ObjId} {e : String} {r : RecvId} : pc ≠ .handler →
      pc' ≠ .handler → (Frame.start pc' o e r).startRank < (Frame.start pc o e r).startRank →
      StartMove s s' (.start pc o e r) .ok (.start pc' o e r)
  | spawned {o : ObjId} {e : String} {r : RecvId} :
      StartMove s s' (.start .createThread o e r) .ok (.emplace o e r)
  | threw {pc : StartPc} {o : ObjId} {e : String} {r : RecvId} : pc ≠ .handler →
      StartMove s s' (.start pc o e r) .throw (.start .handler o e r)
  | handled {o : ObjId} {e : String} {r : RecvId} : (s'.recv r).thread = (s.recv r).thread →
      StartMove s s' (.start .handler o e r) .ok (.dtor .test (.operation (.status .qpidError)) r)
  | handlerThrew {o : ObjId} {e : String} {r : RecvId} : (s'.recv r).thread = (s.recv r).thread →
      StartMove s s' (.start .handler o e r) .throw (.dtor .test (.operation .threw) r)
  | emplaced {o : ObjId} {e : String} {r : RecvId} :
      StartMove s s' (.emplace o e r) .ok (.idle (some (.status .qpidSuccess)))
  | taken {o : ObjId} {e : String} {r : RecvId} :
      StartMove s s' (.emplace o e r) .ok (.dtor .test (.operation (.status .qpidSuccess)) r)
  | destroying {pc pc' : DtorPc} {res : Result} {r : RecvId} :
      (Frame.dtor pc' (.operation res) r).startRank < (Frame.dtor pc (.operation res) r).startRank →
      (s'.recv r).thread = (s.recv r).thread → (pc' = .join → (s.recv r).thread = .joinable) →
      StartMove s s' (.dtor pc (.operation res) r) .ok (.dtor pc' (.operation res) r)
  | ended {pc : DtorPc} {res : Result} {r : RecvId} :
      StartMove s s' (.dtor pc (.operation res) r) .ok (.idle (some res))
  /-- `~QPIDReceiver` ends the process. -/
  | halted {pc : DtorPc} {k : DtorCaller} {x : Outcome} {r : RecvId} : s'.halted ≠ none →
      (s'.recv r).thread = (s.recv r).thread → StartMove s s' (.dtor pc k r) x (.dtor pc k r)

section Receive

variable {s s' : State} {l : Label} {t : Thread}

theorem Frame.Starting.holds {f : Frame} (h : f.Starting) {r : RecvId} (hr : f.recv = some r) :
    f.holds r := by
  cases h <;> simp_all

/-- An exception of `closeConnection` in `~QPIDReceiver` ends the process. -/
theorem Step.halted_of_closeThrow {k : DtorCaller} {r : RecvId} (h : Step s (.exec t .throw) s')
    (hf : s.frame t = .dtor .close k r) : s'.halted ≠ none ∧ s'.frame t = .dtor .close k r := by
  cases h with
  | dtorCloseThrow => simp [hf]
  | _ => simp_all

/-- The constructors of `StartMove` cover the steps of `t`. -/
theorem Step.start_move (h : Step s l s') (hl : l.thread = some t) (hcall : ∀ c, l ≠ .call t c)
    (hf : (s.frame t).Starting) :
    ∃ x, l = .exec t x ∧ StartMove s s' (s.frame t) x (s'.frame t) := by
  cases h with
  | work | lost => cases hl
  | callEmpty | callAlready | callConstruct | callInvalid | callIndex | callDestructor =>
    cases hl
    exact absurd rfl (hcall _)
  | construct hq => cases hl; exact ⟨_, rfl, by simpa [hq] using StartMove.constructed⟩
  | constructThrow hq => cases hl; exact ⟨_, rfl, by simpa [hq] using StartMove.constructThrew⟩
  | openConnection hq | createSession hq | createReceiver hq =>
    cases hl
    exact ⟨_, rfl, by simpa [hq] using .advanced (by simp) (by simp) (by simp [Frame.startRank])⟩
  | createThread hq => cases hl; exact ⟨_, rfl, by simpa [hq] using StartMove.spawned⟩
  | startThrow hq hpc => cases hl; exact ⟨_, rfl, by simpa [hq] using StartMove.threw hpc⟩
  | handler hq =>
    cases hl
    exact ⟨_, rfl, by simpa [hq] using .handled (by simp [Receiver.closeConnection])⟩
  | handlerThrow hq =>
    cases hl
    exact ⟨_, rfl, by simpa [hq] using .handlerThrew (by simp [Receiver.closeConnectionThrow])⟩
  | emplace hq => cases hl; exact ⟨_, rfl, by simpa [hq] using StartMove.emplaced⟩
  | emplaceTaken hq => cases hl; exact ⟨_, rfl, by simpa [hq] using StartMove.taken⟩
  | @dtorTest _ k r hq | @dtorInactive _ k r hq | @dtorClear _ k r hq | @dtorClose _ k r hq
  | @dtorJoinable _ k r hq =>
    cases hl
    rw [hq] at hf ⊢
    cases hf
    refine ⟨_, rfl, ?_⟩
    simpa using .destroying (by simp [Frame.startRank]) (by simp [Receiver.closeConnection])
      (by simp_all)
  | @dtorNotJoinable _ k r hq | @dtorJoin _ k r hq =>
    cases hl
    rw [hq] at hf ⊢
    cases hf
    exact ⟨_, rfl, by simpa [DtorCaller.frame] using StartMove.ended⟩
  | dtorCloseThrow hq =>
    cases hl
    exact ⟨_, rfl, by simpa [hq] using .halted (by simp) (by simp [Receiver.closeConnectionThrow])⟩
  | dtorJoinThrow hq => cases hl; exact ⟨_, rfl, by simpa [hq] using .halted (by simp) rfl⟩
  | index hq | indexNull hq | erase hq | eraseNone hq | stopTest hq | stopInactive hq
  | stopClear hq | stopClose hq | stopCloseThrow hq | stopJoinable hq | stopNotJoinable hq
  | stopJoinThrow hq | stopJoin hq | pickStop hq | stopAllDone hq | pickClear hq
  | clearAllDone hq =>
    cases hl
    rw [hq] at hf
    cases hf

namespace StartMove

variable {f f' : Frame} {x : Outcome}

/-- `qpidReceiveMessages` goes on with `qpidReceiveMessages`, on the same receiver or on the one it
has just constructed. -/
theorem starting (h : StartMove s s' f x f') (hf : f.Starting) :
    f'.Starting ∧ ∀ r, f'.recv = some r → f.recv = some r ∨ r = s.next := by
  cases h with
  | halted => exact ⟨hf, fun _ hr => Or.inl hr⟩
  | constructed | advanced | spawned | threw => exact ⟨by constructor, by simp⟩
  | constructThrew | handled | handlerThrew | emplaced | taken =>
    exact ⟨by constructor; simp, by simp⟩
  | destroying | ended =>
    cases hf with
    | dtor hres => exact ⟨by constructor; exact hres, by simp⟩

theorem ne_idle (h : StartMove s s' f x f') (last : Option Result) : f ≠ .idle last := by
  cases h <;> simp

theorem rank_lt (h : StartMove s s' f x f') (hh : s'.halted = none) :
    f'.startRank < f.startRank := by
  cases h with
  | advanced _ _ hlt | destroying hlt => exact hlt
  | threw => rename_i pc _ _ _ _; cases pc <;> simp_all [Frame.startRank]
  | ended => rename_i pc _ _; cases pc <;> simp [Frame.startRank]
  | halted hh' => exact absurd hh hh'
  | _ => simp [Frame.startRank]

/-- An exception leaves `qpidReceiveMessages` when `createConnection` throws, or `closeConnection`
in the catch block. -/
theorem threw_iff (h : StartMove s s' f x f') : f'.Threw ↔ f.Threw ∨ x = .throw ∧
    ((∃ o e, f = .construct o e) ∨ ∃ o e r, f = .start .handler o e r) := by
  cases h <;> simp_all [Frame.Threw]

/-- After a failure, `qpidReceiveMessages` fails. -/
theorem failed (h : StartMove s s' f x f') (hh : s'.halted = none)
    (hf : f.Failed ∨ x = .throw) : f'.Failed := by
  cases h <;> simp_all [Frame.Failed, Frame.Threw]

end StartMove

namespace Starts

/-- Only `t` continues its operation. -/
theorem step_of_ne (hs : Starts s t) (hlife : Life s) (h : Step s l s') (hl : l.thread ≠ some t) :
    Starts s' t := by
  have hf := h.frame_of_ne hl
  have hkeep : ∀ r, (s.frame t).recv = some r →
      (s'.recv r).thread = (s.recv r).thread := fun r ht =>
    (h.flags_of_alone fun u hu => hs.alone r u ht hu ▸ hl).2
  refine ⟨by rw [hf]; exact hs.frame, fun r u ht hu => ?_, by rw [hf]; exact hs.own,
    fun pc res r ht hres => ?_, fun res r ht => ?_⟩
  · rw [hf] at ht
    rcases h.recv_of_frame hu with hu | ⟨-, rfl, -⟩ | ⟨-, -, o, e, hreg⟩
    · exact hs.alone r u ht hu
    · exact absurd (hlife.frame_lt t _ ht) (lt_irrefl _)
    · exact absurd hreg (hlife.holds_unreg t o e r (hs.frame.holds ht))
  · rw [hf] at ht
    obtain ⟨hthread, hjoin⟩ := hs.thread pc res r ht hres
    exact ⟨(hkeep r (by rw [ht]; rfl)).trans hthread, hjoin⟩
  · rw [hf] at ht
    exact (hkeep r (by rw [ht]; rfl)).trans (hs.joinable res r ht)

theorem step_of_exec (hs : Starts s t) (hlife : Life s) (hb : Born s) (hc : CallsInside s)
    (h : Step s l s') (hl : l.thread = some t) (hcall : ∀ c, l ≠ .call t c) : Starts s' t := by
  obtain ⟨x, -, hm⟩ := h.start_move hl hcall hs.frame
  obtain ⟨hframe, hrecv⟩ := hm.starting hs.frame
  refine ⟨hframe, fun r u ht hu => ?_, fun r ht => ?_, fun pc res r ht hres => ?_,
    fun res r ht => ?_⟩
  · by_contra hne
    have hfu := h.frame_of_ne (u := u) (by rw [hl]; exact fun e => hne (Option.some.inj e).symm)
    rw [hfu] at hu
    rcases hrecv r ht with ht | rfl
    · exact hne (hs.alone r u ht hu)
    · exact absurd (hlife.frame_lt u _ hu) (lt_irrefl _)
  · rcases hrecv r ht with ht | rfl
    · exact hs.own r ht
    · exact hc.ne_worker hm.ne_idle (by rw [hlife.fresh s.next le_rfl]; rfl)
  · rw [ht] at hm
    generalize hf : s.frame t = f at hm
    cases hm with
    | handled hkeep | handlerThrew hkeep =>
      exact ⟨hkeep.trans (hb.start_thread t _ _ _ r hf), by simp⟩
    | taken => exact absurd rfl hres
    | destroying _ hkeep hjoin =>
      have hnone := (hs.thread _ res r hf hres).1
      exact ⟨hkeep.trans hnone, fun e => by simp [hjoin e] at hnone⟩
    | halted _ hkeep =>
      obtain ⟨hnone, hjoin⟩ := hs.thread _ res r hf hres
      exact ⟨hkeep.trans hnone, hjoin⟩
  · rw [ht] at hm
    generalize hf : s.frame t = f at hm
    cases hm with
    | destroying _ hkeep hjoin => exact hkeep.trans (hjoin rfl)
    | halted _ hkeep => exact hkeep.trans (hs.joinable res r hf)

/-- `qpidReceiveMessages` ends the process only when `closeConnection` throws in
`~QPIDReceiver`. -/
theorem closeThrow_of_halted {x : Outcome} (hs : Starts s t) (h : Step s (.exec t x) s')
    (hh : s.halted = none) (hh' : s'.halted ≠ none) :
    x = .throw ∧ ∃ k r, s.frame t = .dtor .close k r ∧ s'.frame t = .dtor .close k r := by
  have hframe := hs.frame
  cases h with
  | dtorCloseThrow hq => exact ⟨rfl, _, _, hq, by simpa using hq⟩
  | @dtorJoinThrow _ k r hq hjoin =>
    rw [hq] at hframe
    cases hframe
    rcases hjoin with rfl | hjoin
    · exact absurd rfl (hs.own r (by rw [hq]; rfl))
    · exact absurd (hs.joinable _ r hq) hjoin
  | indexNull hq =>
    rw [hq] at hframe
    cases hframe
  | _ => exact absurd hh (by simpa using hh')

/-- `qpidReceiveMessages` never waits, unless another thread has registered the exchange meanwhile,
in which case `~QPIDReceiver` joins a worker. -/
theorem exists_exec (hs : Starts s t) (hh : s.halted = none) (hf : ∀ last, s.frame t ≠ .idle last) :
    (∃ x s', qpid.step s (.exec t x) = some s') ∨
      ∃ r, s.frame t = .dtor .join (.operation (.status .qpidSuccess)) r := by
  have hstep : (s.exec t .ok).isSome = true → ∃ x s', qpid.step s (.exec t x) = some s' := by
    intro h
    obtain ⟨s', hs'⟩ := Option.isSome_iff_exists.1 h
    exact ⟨.ok, s', by simp [qpid, State.step, hh, hs']⟩
  have hframe := hs.frame
  cases hq : s.frame t with
  | construct o e => exact Or.inl (hstep (by simp [State.exec, hq]))
  | start pc o e r =>
    left
    cases pc <;> exact hstep (by simp [State.exec, hq, State.receiveMessages])
  | emplace o e r =>
    left
    cases hreg : (s.activeReceivers o).lookup e <;> exact hstep (by simp [State.exec, hq, hreg])
  | dtor pc k r =>
    rw [hq] at hframe
    cases hframe with
    | @dtor _ res _ =>
      cases pc with
      | test | joinable =>
        left
        refine hstep ?_
        simp only [State.exec, hq, State.destroyReceiver]
        split <;> rfl
      | clear | close => exact Or.inl (hstep (by simp [State.exec, hq, State.destroyReceiver]))
      | join =>
        right
        by_cases hres : res = .status .qpidSuccess
        · exact ⟨r, by rw [hres]⟩
        · exact absurd rfl (hs.thread _ res r hq hres).2
  | idle last => exact absurd hq (hf last)
  | index | stop | erase | stopAll | clearAll =>
    rw [hq] at hframe
    cases hframe

end Starts

/-- `t` has entered `qpidReceiveMessages`. -/
theorem Step.starts_of_call {o : ObjId} {e : String} {callback : Bool}
    (h : Step s (.call t (.qpidReceiveMessages o e callback)) s') :
    Starts s' t ∧ ¬ (s'.frame t).Threw ∧ (s'.frame t).startRank ≤ 11 ∧ s'.halted = s.halted := by
  have key : ∀ f : Frame, s'.frame t = f → f.Starting → f.recv = none → ¬ f.Threw →
      f.startRank ≤ 11 → s'.halted = s.halted →
      Starts s' t ∧ ¬ (s'.frame t).Threw ∧ (s'.frame t).startRank ≤ 11 ∧ s'.halted = s.halted := by
    intro f hf hstart hrecv hthrew hrank hh
    have hnone : ∀ r, (s'.frame t).recv ≠ some r := by simp [hf, hrecv]
    exact ⟨⟨by rw [hf]; exact hstart, fun r u ht => absurd ht (hnone r),
      fun r ht => absurd ht (hnone r), fun pc res r ht => absurd (by rw [ht]; rfl) (hnone r),
      fun res r ht => absurd (by rw [ht]; rfl) (hnone r)⟩, hf ▸ hthrew, hf ▸ hrank, hh⟩
  cases h with
  | callEmpty | callAlready =>
    exact key _ (Function.update_self ..) (.ended (by simp)) rfl (by simp [Frame.Threw])
      (by simp [Frame.startRank]) rfl
  | callConstruct =>
    exact key _ (Function.update_self ..) .construct rfl (by simp [Frame.Threw])
      (by simp [Frame.startRank]) rfl

end Receive

/-! ### Sends -/

/-- An exception has left the send. -/
def SendFrame.Threw (f : SendFrame) : Prop := f = .idle (some .threw)

/-- The send does not return `QPID_SUCCESS` any more. -/
def SendFrame.Failed (f : SendFrame) : Prop :=
  f.Threw ∨ f = .idle (some (.status .qpidError)) ∨ ∃ args, f = .sending .handler args

section Send

variable {parse : AddressParser} {args : SendArgs} {pc : SendPc} {x : Outcome} {f : SendFrame}

/-- An exception leaves a send when `createConnection` throws, or `closeConnection` in the catch
block. -/
theorem SendStep.threw_iff (h : SendStep parse args pc x f) :
    f.Threw ↔ x = .throw ∧ (pc = .construct ∨ pc = .handler) := by
  cases h with
  | throw hpc => cases pc <;> simp_all [SendFrame.Threw, SendPc.inTry]
  | _ => simp [SendFrame.Threw]

/-- After a failure, a send fails. -/
theorem SendStep.failed (h : SendStep parse args pc x f)
    (hf : (SendFrame.sending pc args).Failed ∨ x = .throw) : f.Failed := by
  cases h <;> simp_all [SendFrame.Failed, SendFrame.Threw]

theorem SendStep.runs (h : SendStep parse args pc x f) :
    (∃ pc', f = .sending pc' args) ∨ ∃ res, res ≠ .destroyed ∧ f = .idle (some res) := by
  cases h <;> simp

end Send

/-! ### The calls -/

/-- The operations that answer with a status and may fail in the connector. -/
inductive ApiCall where
  | send (c : SendOperation)
  /-- `qpidReceiveMessages(e, callback)` on `o`; `callback` says whether it is non-empty. -/
  | receive (o : ObjId) (e : String) (callback : Bool)
  deriving DecidableEq, Repr

/-- The step in which `t` enters the operation. -/
def ApiCall.label (t : Thread) : ApiCall → ProcessLabel
  | .send c => .send t c
  | .receive o e callback => .messaging (.call t (.qpidReceiveMessages o e callback))

/-- How the operation of `t` has ended; `none` while it has not. -/
def ApiCall.result (p : Process) (t : Thread) : ApiCall → Option Result
  | .send _ => match p.sender t with
    | .idle last => last
    | .sending _ _ => none
  | .receive _ _ _ => match p.messaging.frame t with
    | .idle last => last
    | _ => none

/-- `t` enters an operation. -/
def ProcessLabel.EntersBy (t : Thread) (l : ProcessLabel) : Prop :=
  (∃ c, l = .send t c) ∨ ∃ c, l = .messaging (.call t c)

/-- `t` executes a program point of its operation. -/
def ProcessLabel.execBy (t : Thread) : ProcessLabel → Bool
  | .exec u _ => u = t
  | .messaging (.exec u _) => u = t
  | _ => false

/-- A call in the operation of `t` throws. -/
def ProcessLabel.ThrowsBy (t : Thread) (l : ProcessLabel) : Prop :=
  l = .exec t .throw ∨ l = .messaging (.exec t .throw)

/-- The step is neither a `createConnection` that throws nor a `closeConnection` that throws in a
catch block or in `~QPIDReceiver`, in a send or a `qpidReceiveMessages` of `t`. -/
def Contained (t : Thread) (p : Process) (l : ProcessLabel) : Prop :=
  (l = .exec t .throw → ∀ args,
    p.sender t ≠ .sending .construct args ∧ p.sender t ≠ .sending .handler args) ∧
  (l = .messaging (.exec t .throw) →
    (∀ o e, p.messaging.frame t ≠ .construct o e ∧
      ∀ r, p.messaging.frame t ≠ .start .handler o e r) ∧
    ∀ k r, p.messaging.frame t ≠ .dtor .close k r)

/-- The process has ended, in a step of the operation of `t`. -/
def Terminates (t : Thread) (p : Process) (ls : List ProcessLabel) : Prop :=
  p.messaging.halted ≠ none ∧ ∃ l, ls.getLast? = some l ∧ l.execBy t = true

namespace ApiCall

/-- `t` executes the operation, or has ended it. -/
def Runs (p : Process) (t : Thread) : ApiCall → Prop
  | .send c => (∃ last, p.messaging.frame t = .idle last) ∧
      ((∃ pc, p.sender t = .sending pc c.args) ∨
        ∃ res, res ≠ .destroyed ∧ p.sender t = .idle (some res))
  | .receive _ _ _ => p.idle t = true ∧ Starts p.messaging t

/-- An exception leaves the operation, or has left it. -/
def Threw (p : Process) (t : Thread) : ApiCall → Prop
  | .send _ => (p.sender t).Threw
  | .receive _ _ _ => (p.messaging.frame t).Threw

/-- The operation does not return `QPID_SUCCESS` any more. -/
def Failed (p : Process) (t : Thread) : ApiCall → Prop
  | .send _ => (p.sender t).Failed
  | .receive _ _ _ => (p.messaging.frame t).Failed

/-- The number of steps the operation has left, at most. -/
def rank (p : Process) (t : Thread) : ApiCall → ℕ
  | .send _ => (p.sender t).rank
  | .receive _ _ _ => if p.messaging.halted = none then (p.messaging.frame t).startRank else 0

/-- `t` can take the next step of the operation, or joins the worker of the receiver that it could
not register because another thread had registered the exchange meanwhile. -/
def GoesOn (parse : AddressParser) (p : Process) (t : Thread) : Prop :=
  (∃ l p', l.execBy t = true ∧ (process parse).step p l = some p') ∨
    ∃ r, p.messaging.frame t = .dtor .join (.operation (.status .qpidSuccess)) r

variable {parse : AddressParser} {p p' : Process} {t : Thread} {call : ApiCall} {l : ProcessLabel}

/-- What a step does to the operation of `t`, if it is not a further call of `t`. -/
inductive Move (parse : AddressParser) (p p' : Process) (t : Thread) :
    ApiCall → ProcessLabel → Prop
  | other {call : ApiCall} {l : ProcessLabel} : p'.sender t = p.sender t → l.execBy t = false →
      (p'.messaging = p.messaging ∨ ∃ l', l'.thread ≠ some t ∧
        qpid.step p.messaging l' = some p'.messaging) → Move parse p p' t call l
  | send {c : SendOperation} {x : Outcome} {pc : SendPc} : p'.messaging = p.messaging →
      p.sender t = .sending pc c.args → SendStep parse c.args pc x (p'.sender t) →
      Move parse p p' t (.send c) (.exec t x)
  | receive {o : ObjId} {e : String} {callback : Bool} {x : Outcome} : p.messaging.halted = none →
      p'.sender t = p.sender t → Step p.messaging (.exec t x) p'.messaging →
      StartMove p.messaging p'.messaging (p.messaging.frame t) x (p'.messaging.frame t) →
      Move parse p p' t (.receive o e callback) (.messaging (.exec t x))

/-- A thread that executes no operation without sends takes no step of one. -/
theorem not_thread_of_idle {s s' : State} {l : Label} {last : Option Result}
    (h : Step s l s') (hf : s.frame t = .idle last) (hcall : ∀ c, l ≠ .call t c) :
    l.thread ≠ some t := by
  intro hl
  cases h <;> cases hl <;> simp_all

theorem move (hs : call.Runs p t) (hl : ¬ l.EntersBy t) (h : ProcessStep parse p l p') :
    Move parse p p' t call l := by
  cases h with
  | @messaging l s hidle hst =>
    have hcall : ∀ c, l ≠ .call t c := fun c e => hl (Or.inr ⟨c, by rw [e]⟩)
    obtain ⟨hh, hstep⟩ := step_cases hst
    by_cases ht : l.thread = some t
    · cases call with
      | send c =>
        obtain ⟨⟨last, hf⟩, -⟩ := hs
        exact absurd ht (not_thread_of_idle hstep hf hcall)
      | receive o e callback =>
        obtain ⟨x, rfl, hm⟩ := hstep.start_move ht hcall hs.2.frame
        exact .receive hh rfl hstep hm
    · refine .other rfl ?_ (Or.inr ⟨l, ht, hst⟩)
      cases l <;> simp_all [ProcessLabel.execBy, Label.thread]
  | @send u c =>
    have hne : t ≠ u := fun e => hl (Or.inl ⟨c, by rw [e]⟩)
    exact .other (by simp [hne]) rfl (Or.inl rfl)
  | @exec u x pc args f hh hf hstep =>
    by_cases hu : u = t
    · subst hu
      cases call with
      | send c =>
        obtain ⟨-, ⟨pc', hf'⟩ | ⟨res, -, hf'⟩⟩ := hs
        · cases hf.symm.trans hf'
          exact .send rfl hf (by simpa using hstep)
        · rw [hf] at hf'
          cases hf'
      | receive => simp_all [Runs, Process.idle]
    · exact .other (by simp [Ne.symm hu]) (by simp [ProcessLabel.execBy, hu]) (Or.inl rfl)

theorem Runs.step (hs : call.Runs p t) (hlife : Life p.messaging) (hb : Born p.messaging)
    (hc : CallsInside p.messaging) (h : Move parse p p' t call l) : call.Runs p' t := by
  cases h with
  | other hsender _ hm =>
    cases call with
    | send c =>
      obtain ⟨⟨last, hf⟩, hsend⟩ := hs
      refine ⟨⟨last, ?_⟩, by rw [hsender]; exact hsend⟩
      rcases hm with hm | ⟨l', ht, hst⟩
      · rw [hm, hf]
      · rw [(Comyno.step_cases hst).2.frame_of_ne ht, hf]
    | receive o e callback =>
      obtain ⟨hidle, hstart⟩ := hs
      refine ⟨by rw [Process.idle, hsender]; exact hidle, ?_⟩
      rcases hm with hm | ⟨l', ht, hst⟩
      · rw [hm]
        exact hstart
      · exact hstart.step_of_ne hlife (Comyno.step_cases hst).2 ht
  | send hm _ hstep =>
    obtain ⟨hidle, -⟩ := hs
    exact ⟨by rw [hm]; exact hidle, hstep.runs⟩
  | receive _ hsender hstep _ =>
    obtain ⟨hidle, hstart⟩ := hs
    exact ⟨by rw [Process.idle, hsender]; exact hidle,
      hstart.step_of_exec hlife hb hc hstep rfl (by simp)⟩

theorem contained_of_not_execBy (hl : l.execBy t = false) : Contained t p l := by
  constructor <;> rintro rfl <;> simp [ProcessLabel.execBy] at hl

/-- A step that `t` does not take leaves its frames alone. -/
theorem frames_of_other (hsender : p'.sender t = p.sender t)
    (hm : p'.messaging = p.messaging ∨ ∃ l', l'.thread ≠ some t ∧
      qpid.step p.messaging l' = some p'.messaging) :
    p'.sender t = p.sender t ∧ p'.messaging.frame t = p.messaging.frame t := by
  refine ⟨hsender, ?_⟩
  rcases hm with hm | ⟨l', ht, hst⟩
  · rw [hm]
  · exact (Comyno.step_cases hst).2.frame_of_ne ht

/-- An exception leaves the operation at the steps that violate `Contained`, and at no other, or the
process ends at such a step. -/
theorem threw_cases (hs : call.Runs p t) (h : Move parse p p' t call l) :
    (call.Threw p' t → call.Threw p t ∨ ¬ Contained t p l) ∧
      (call.Threw p t ∨ ¬ Contained t p l →
        call.Threw p' t ∨ p'.messaging.halted ≠ none ∧ call.result p' t = none) := by
  cases h with
  | other hsender hl hm =>
    obtain ⟨hsender, hframe⟩ := frames_of_other hsender hm
    have hc : Contained t p l := contained_of_not_execBy hl
    cases call <;> simp [Threw, hsender, hframe, hc] <;> exact Or.inl
  | @send c x pc _ hf hstep =>
    have hthrew : ¬ (p.sender t).Threw := by simp [hf, SendFrame.Threw]
    have hc : Contained t p (.exec t x) ↔ ¬ (x = .throw ∧ (pc = .construct ∨ pc = .handler)) := by
      simp only [Contained, hf, SendFrame.sending.injEq, ne_eq, ProcessLabel.exec.injEq, true_and,
        reduceCtorEq, false_imp_iff, and_true]
      grind
    simp only [Threw, hstep.threw_iff, hthrew, hc, not_not, false_or]
    exact ⟨id, Or.inl⟩
  | @receive o e callback x hh _ hstep hmove =>
    have hc : Contained t p (.messaging (.exec t x)) ↔ ¬ (x = .throw ∧
        (((∃ o e, p.messaging.frame t = .construct o e) ∨
          ∃ o e r, p.messaging.frame t = .start .handler o e r) ∨
          ∃ k r, p.messaging.frame t = .dtor .close k r)) := by
      simp only [Contained, reduceCtorEq, false_imp_iff, true_and, ProcessLabel.messaging.injEq,
        Label.exec.injEq]
      grind
    simp only [Threw, hmove.threw_iff, hc, not_not]
    refine ⟨Or.imp_right (And.imp_right Or.inl), fun h => ?_⟩
    rcases h with h | ⟨rfl, h | ⟨k, r, hq⟩⟩
    · exact Or.inl (Or.inl h)
    · exact Or.inl (Or.inr ⟨rfl, h⟩)
    · obtain ⟨hh', hq'⟩ := hstep.halted_of_closeThrow hq
      exact Or.inr ⟨hh', by simp [result, hq']⟩

/-- After a call that throws, the operation fails, or the process has ended. -/
theorem failed (hs : call.Runs p t) (h : Move parse p p' t call l)
    (hf : call.Failed p t ∨ l.ThrowsBy t) :
    call.Failed p' t ∨ p'.messaging.halted ≠ none ∧ call.result p' t = none := by
  cases h with
  | other hsender hl hm =>
    obtain ⟨hsender, hframe⟩ := frames_of_other hsender hm
    rcases hf with hf | hthrow
    · left
      cases call <;> simpa [Failed, hsender, hframe] using hf
    · rcases hthrow with rfl | rfl <;> simp [ProcessLabel.execBy] at hl
  | @send c x pc _ hq hstep =>
    left
    refine hstep.failed ?_
    rcases hf with hf | hthrow
    · exact Or.inl (by simpa [Failed, hq] using hf)
    · exact Or.inr (by simpa [ProcessLabel.ThrowsBy] using hthrow)
  | @receive o e callback x hh _ hstep hmove =>
    have hx : (p.messaging.frame t).Failed ∨ x = .throw :=
      hf.imp id (by simp [ProcessLabel.ThrowsBy])
    by_cases hh' : p'.messaging.halted = none
    · exact Or.inl (hmove.failed hh' hx)
    · obtain ⟨-, k, r, -, hq⟩ := hs.2.closeThrow_of_halted hstep hh hh'
      exact Or.inr ⟨hh', by simp [result, hq]⟩

theorem rank_add_le (hs : call.Runs p t) (h : Move parse p p' t call l) :
    (if l.execBy t then 1 else 0) + call.rank p' t ≤ call.rank p t := by
  cases h with
  | other hsender hl hm =>
    obtain ⟨hsender, hframe⟩ := frames_of_other hsender hm
    cases call with
    | send c => simp [rank, hsender, hl]
    | receive o e callback =>
      rcases hm with hm | ⟨l', -, hst⟩
      · simp [rank, hl, hm]
      · have hh := (Comyno.step_cases hst).1
        by_cases hh' : p'.messaging.halted = none <;> simp [rank, hl, hh, hh', hframe]
  | @send c x pc _ hf hstep =>
    have hlt := hstep.rank_lt
    simp only [ProcessLabel.execBy, rank, hf, decide_true, if_true]
    omega
  | @receive o e callback x hh _ hstep hmove =>
    simp only [ProcessLabel.execBy, rank, hh, decide_true, if_true]
    by_cases hh' : p'.messaging.halted = none
    · have hlt := hmove.rank_lt hh'
      rw [if_pos hh']
      omega
    · obtain ⟨-, k, r, hq, -⟩ := hs.2.closeThrow_of_halted hstep hh hh'
      rw [if_neg hh', hq]
      simp [Frame.startRank]

/-- While the operation has not ended, and the process runs, it goes on. -/
theorem goesOn (hs : call.Runs p t) (hh : p.messaging.halted = none)
    (hres : call.result p t = none) : GoesOn parse p t := by
  cases call with
  | send c =>
    obtain ⟨-, ⟨pc, hf⟩ | ⟨res, -, hf⟩⟩ := hs
    · obtain ⟨x, f, hx, -⟩ := c.args.exists_sendMessage parse pc
      exact Or.inl ⟨.exec t x, (p.record t (c.args.calls x pc)).goto t f,
        by simp [ProcessLabel.execBy],
        by simp only [process, Process.step, hh, hf, hx, Option.map_some]⟩
    · simp [result, hf] at hres
  | receive o e callback =>
    obtain ⟨hidle, hstart⟩ := hs
    have hf : ∀ last, p.messaging.frame t ≠ .idle last := by
      intro last hf
      have hframe := hstart.frame
      rw [hf] at hframe
      cases hframe
      simp [result, hf] at hres
    rcases hstart.exists_exec hh hf with ⟨x, s', hst⟩ | hjoin
    · refine Or.inl ⟨.messaging (.exec t x), { p with messaging := s' },
        by simp [ProcessLabel.execBy], ?_⟩
      change p.step parse (.messaging (.exec t x)) = _
      have hst' : p.messaging.step (.exec t x) = some s' := hst
      simp [Process.step, Label.actor, hidle, hst']
    · exact Or.inr hjoin

/-- What ended with a failure ended with `QPID_ERROR` or with an exception. -/
theorem result_of_failed {res : Result} (hf : call.Failed p t)
    (hres : call.result p t = some res) : res = .threw ∨ res = .status .qpidError := by
  cases call with
  | send c => cases hq : p.sender t <;> simp_all [result, Failed, SendFrame.Failed, SendFrame.Threw]
  | receive o e callback =>
    cases hq : p.messaging.frame t <;> simp_all [result, Failed, Frame.Failed, Frame.Threw]

/-- The operation ends with a status or with an exception. -/
theorem result_ne_destroyed {res : Result} (hs : call.Runs p t)
    (hres : call.result p t = some res) :
    res ≠ .destroyed := by
  rintro rfl
  cases call with
  | send c =>
    obtain ⟨-, ⟨pc, hf⟩ | ⟨res, hne, hf⟩⟩ := hs
    · simp [result, hf] at hres
    · exact hne (by simpa [result, hf] using hres)
  | receive o e callback =>
    have hframe := hs.2.frame
    cases hq : p.messaging.frame t <;> simp [result, hq] at hres
    rw [hq, hres] at hframe
    cases hframe
    contradiction

/-- The exception that left an ended operation is its result. -/
theorem threw_iff_result {res : Result} (hres : call.result p t = some res) :
    call.Threw p t ↔ res = .threw := by
  cases call with
  | send c => cases hq : p.sender t <;> simp_all [result, Threw, SendFrame.Threw]
  | receive o e callback => cases hq : p.messaging.frame t <;> simp_all [result, Threw, Frame.Threw]

/-- `t` has entered the operation. -/
theorem runs_of_step (h : ProcessStep parse p (call.label t) p') :
    call.Runs p' t ∧ ¬ call.Threw p' t ∧ call.rank p' t ≤ 11 ∧ p'.messaging.halted = none ∧
      Contained t p (call.label t) := by
  cases call with
  | send c =>
    cases h with
    | send hh hready _ =>
      obtain ⟨last, hf⟩ := State.idle_of_ready hready
      refine ⟨⟨⟨last, hf⟩, Or.inl ⟨.construct, by simp⟩⟩, ?_, ?_, hh, ?_⟩
      · simp [Threw, SendFrame.Threw]
      · simp [rank, SendFrame.rank]
      · simp [Contained, label]
  | receive o e callback =>
    cases h with
    | messaging hidle hst =>
      obtain ⟨hh, hstep⟩ := Comyno.step_cases hst
      obtain ⟨hs, hthrew, hrank, hkeep⟩ := hstep.starts_of_call
      refine ⟨⟨hidle t (by simp [Label.actor]), hs⟩, hthrew, ?_, hkeep.trans hh, ?_⟩
      · simp only [rank]
        split <;> omega
      · simp [Contained, label]

/-- What holds of the operation while other threads go on as they like. -/
structure Underway (parse : AddressParser) (p : Process) (t : Thread) (call : ApiCall) : Prop where
  runs : call.Runs p t
  life : Life p.messaging
  born : Born p.messaging
  inside : CallsInside p.messaging

theorem Underway.step (hs : Underway parse p t call) (hl : ¬ l.EntersBy t)
    (h : (process parse).step p l = some p') :
    Underway parse p' t call ∧ Move parse p p' t call l := by
  have hstep := process_step_cases h
  have hm := move hs.runs hl hstep
  have hruns := hs.runs.step hs.life hs.born hs.inside hm
  refine ⟨?_, hm⟩
  cases hstep with
  | messaging _ hst =>
    have h := (Comyno.step_cases hst).2
    exact ⟨hruns, hs.life.step h, hs.born.step hs.life h, hs.inside.step hs.born h⟩
  | send | exec => exact ⟨hruns, hs.life, hs.born, hs.inside⟩

section Run

variable {ls : List ProcessLabel}

/-- An exception leaves the operation in a run exactly if some step violates `Contained`, if the
operation has ended. -/
theorem threw_iff_of_run {res : Result} (hs : Underway parse p t call) (hthrew : ¬ call.Threw p t)
    (hrun : (process parse).run p ls = some p') (hls : ∀ l ∈ ls, ¬ l.EntersBy t)
    (hres : call.result p' t = some res) :
    call.Threw p' t ↔ ¬ (process parse).AllSteps (Contained t) p ls := by
  have hend := Conc.Machine.flag_of_run (M := process parse)
    (I := fun b p => Underway parse p t call ∧ (call.Threw p t → b = true) ∧
      (b = true → call.Threw p t ∨ p.messaging.halted ≠ none ∧ call.result p t = none))
    (D := fun _ l => ¬ l.EntersBy t) (C := Contained t)
    (fun b p l p' ⟨hs, hb, hb'⟩ hd hc hst => by
      obtain ⟨hs', hm⟩ := hs.step hd hst
      obtain ⟨hold, hnew⟩ := threw_cases hs.runs hm
      refine ⟨hs', fun h => hb ((hold h).resolve_right (not_not.2 hc)), fun h => ?_⟩
      exact hnew (Or.inl ((hb' h).resolve_right fun hh => hh.1 (process_halted_of_step hst))))
    (fun b p l p' ⟨hs, _⟩ hd hc hst => by
      obtain ⟨hs', hm⟩ := hs.step hd hst
      exact ⟨hs', fun _ => rfl, fun _ => (threw_cases hs.runs hm).2 (Or.inr hc)⟩)
    (b := false) ⟨hs, fun h => absurd h hthrew, by simp⟩ hrun
    (Conc.Machine.allSteps_of_labels fun l hl _ => hls l hl)
  rcases hend with ⟨hall, -, hiff, -⟩ | ⟨hnot, -, -, hiff⟩
  · exact iff_of_false (fun h => by simpa using hiff h) (by simpa using hall)
  · exact iff_of_true ((hiff rfl).resolve_right fun hh => by simp [hres] at hh) hnot

/-- The operation ends the process only at a step that violates `Contained`. -/
theorem not_contained_of_terminates (hs : Underway parse p t call) (hh : p.messaging.halted = none)
    (hrun : (process parse).run p ls = some p') (hls : ∀ l ∈ ls, ¬ l.EntersBy t)
    (hterm : Terminates t p' ls) :
    ¬ (process parse).AllSteps (Contained t) p ls := by
  induction ls generalizing p with
  | nil =>
    cases hrun
    exact absurd hh hterm.1
  | cons l ls ih =>
    obtain ⟨p₁, hst, hrun'⟩ := Option.bind_eq_some_iff.1 hrun
    obtain ⟨hs', hm⟩ := hs.step (hls l List.mem_cons_self) hst
    rw [Conc.Machine.allSteps_cons_iff hst]
    cases ls with
    | nil =>
      -- the last step
      cases hrun'
      obtain ⟨hhalted, l', hlast, hl⟩ := hterm
      cases hlast
      cases hm with
      | other _ hnot => simp [hnot] at hl
      | send hsame => exact absurd hh (hsame ▸ hhalted)
      | @receive o e callback x _ _ hstep hmove =>
        obtain ⟨rfl, k, r, hq, -⟩ := hs.runs.2.closeThrow_of_halted hstep hh hhalted
        exact fun hc => (hc.1.2 rfl).2 k r hq
    | cons l₂ ls =>
      obtain ⟨p₂, hst₂, -⟩ := Option.bind_eq_some_iff.1 hrun'
      have hnot := ih hs' (process_halted_of_step hst₂) hrun'
        (fun l hl => hls l (List.mem_cons_of_mem _ hl))
        ⟨hterm.1, by simpa [List.getLast?_cons_cons] using hterm.2⟩
      exact fun hc => hnot hc.2

/-- After a call that throws, the operation ends with a failure, if it ends. -/
theorem failed_of_run {res : Result} (hs : Underway parse p t call)
    (hrun : (process parse).run p ls = some p') (hls : ∀ l ∈ ls, ¬ l.EntersBy t)
    (hthrow : ∃ l ∈ ls, l.ThrowsBy t) (hres : call.result p' t = some res) :
    call.Failed p' t := by
  have hend := Conc.Machine.flag_of_run (M := process parse)
    (I := fun b p => Underway parse p t call ∧ (b = true → call.Failed p t ∨
      p.messaging.halted ≠ none ∧ call.result p t = none))
    (D := fun _ l => ¬ l.EntersBy t) (C := fun _ l => ¬ l.ThrowsBy t)
    (fun b p l p' ⟨hs, hb⟩ hd _ hst => by
      obtain ⟨hs', hm⟩ := hs.step hd hst
      refine ⟨hs', fun h => failed hs.runs hm (Or.inl ((hb h).resolve_right ?_))⟩
      exact fun hh => hh.1 (process_halted_of_step hst))
    (fun b p l p' ⟨hs, _⟩ hd hc hst => by
      obtain ⟨hs', hm⟩ := hs.step hd hst
      exact ⟨hs', fun _ => failed hs.runs hm (Or.inr (not_not.1 hc))⟩)
    (b := false) ⟨hs, by simp⟩ hrun (Conc.Machine.allSteps_of_labels fun l hl _ => hls l hl)
  rcases hend with ⟨hall, -, -⟩ | ⟨-, -, hfailed⟩
  · obtain ⟨l, hl, hthrow⟩ := hthrow
    exact absurd hthrow (Conc.Machine.labels_of_allSteps hrun hall l hl)
  · exact (hfailed rfl).resolve_right fun hh => by simp [hres] at hh

/-- The steps of an operation are as many as its rank, at most. -/
theorem countP_le_rank (hs : Underway parse p t call)
    (hrun : (process parse).run p ls = some p') (hls : ∀ l ∈ ls, ¬ l.EntersBy t) :
    ls.countP (·.execBy t) ≤ call.rank p t := by
  have hcount := Conc.Machine.countP_add_le (M := process parse)
    (I := fun p => Underway parse p t call) (D := fun _ l => ¬ l.EntersBy t)
    (p := (·.execBy t)) (μ := fun p => call.rank p t)
    (fun p l p' hs hd hst => (hs.step hd hst).1)
    (fun p l p' hs hd hst => rank_add_le hs.runs (hs.step hd hst).2)
    hs hrun (Conc.Machine.allSteps_of_labels fun l hl _ => hls l hl)
  exact le_trans (Nat.le_add_right _ _) hcount

/-- The operation is underway throughout the run that follows its call. -/
theorem underway_of_run (hs : Underway parse p t call)
    (hrun : (process parse).run p ls = some p') (hls : ∀ l ∈ ls, ¬ l.EntersBy t) :
    Underway parse p' t call :=
  (Conc.Machine.reachableWhere_of_run (C := fun _ l => ¬ l.EntersBy t) hrun
    (Conc.Machine.allSteps_of_labels fun l hl _ => hls l hl)).invariant
    (I := fun p => Underway parse p t call) hs fun _ _ _ hs hd hst => (hs.step hd hst).1

end Run

end ApiCall

/-- **The status of a call.**  However the calls of the connector end and whatever the other
threads do, a send or a `qpidReceiveMessages` takes at most eleven steps and can take the next one
until it ends.  It ends with a status, which is `QPID_ERROR` if any of its calls threw, exactly when
neither `createConnection` threw nor `closeConnection` in the catch block or in `~QPIDReceiver`. -/
theorem returns_status {parse : AddressParser} {p p' : Process} {t : Thread} {call : ApiCall}
    {ls : List ProcessLabel} (hp : (process parse).Reachable Process.init p)
    (hrun : (process parse).run p (call.label t :: ls) = some p')
    (hls : ∀ l ∈ ls, ¬ l.EntersBy t) :
    ls.countP (·.execBy t) ≤ 11 ∧
      (call.result p' t = none → p'.messaging.halted = none → ApiCall.GoesOn parse p' t) ∧
      (call.result p' t ≠ none ∨ Terminates t p' ls →
        ((∃ st, call.result p' t = some (.status st) ∧
            ((∃ l ∈ ls, l.ThrowsBy t) → st = .qpidError)) ↔
          (process parse).AllSteps (Contained t) p (call.label t :: ls))) := by
  obtain ⟨p₁, hst, hrun'⟩ := Option.bind_eq_some_iff.1 hrun
  obtain ⟨hruns, hthrew, hrank, hh, hfirst⟩ := ApiCall.runs_of_step (process_step_cases hst)
  have hreach := messaging_reachable (hp.tail trivial hst)
  obtain ⟨hlife, hborn⟩ := life_and_born_of_reachable hreach
  have hs : ApiCall.Underway parse p₁ t call :=
    ⟨hruns, hlife, hborn, callsInside_of_reachable hreach⟩
  have hend := ApiCall.underway_of_run hs hrun' hls
  refine ⟨(ApiCall.countP_le_rank hs hrun' hls).trans hrank,
    fun hres hh => ApiCall.goesOn hend.runs hh hres, fun hended => ?_⟩
  rw [Conc.Machine.allSteps_cons_iff hst, and_iff_right hfirst]
  cases hres : call.result p' t with
  | none =>
    have hterm := hended.resolve_left (by simp [hres])
    exact iff_of_false (by simp)
      (ApiCall.not_contained_of_terminates hs hh hrun' hls hterm)
  | some res =>
    have hiff := ApiCall.threw_iff_of_run hs hthrew hrun' hls hres
    rw [ApiCall.threw_iff_result hres] at hiff
    rw [← not_iff_not, ← hiff]
    cases res with
    | status st =>
      refine iff_of_false (fun hnot => hnot ⟨st, rfl, fun hthrow => ?_⟩) (by simp)
      have hfailed := ApiCall.failed_of_run hs hrun' hls hthrow hres
      simpa using ApiCall.result_of_failed hfailed hres
    | threw => simp
    | destroyed => exact absurd rfl (ApiCall.result_ne_destroyed hend.runs hres)

/-- A send whose connection cannot be opened. -/
theorem returns_status_of_openConnection_throw :
    ∃ p', (process plainName).run Process.init
        [.send (.app 0) (.qpidSendMessage "message" "exchange" "reply"), .exec (.app 0) .ok,
          .exec (.app 0) .throw, .exec (.app 0) .ok] = some p' ∧
      ∃ st, p'.sender (.app 0) = .idle (some (.status st)) ∧ st = .qpidError := by
  have hrun : ∃ p', (process plainName).run Process.init
      [.send (.app 0) (.qpidSendMessage "message" "exchange" "reply"), .exec (.app 0) .ok,
        .exec (.app 0) .throw, .exec (.app 0) .ok] = some p' ∧
      p'.sender (.app 0) = .idle (some (.status .qpidError)) := ⟨_, rfl, rfl⟩
  obtain ⟨p', hp', hret⟩ := hrun
  have hresult : (ApiCall.send (.qpidSendMessage "message" "exchange" "reply")).result p' (.app 0) =
      some (.status .qpidError) := by simp [ApiCall.result, hret]
  have hcontained : (process plainName).AllSteps (Contained (.app 0)) Process.init
      [.send (.app 0) (.qpidSendMessage "message" "exchange" "reply"), .exec (.app 0) .ok,
        .exec (.app 0) .throw, .exec (.app 0) .ok] := by
    refine fun p₁ h₁ => ⟨by simp [Contained], fun p₂ h₂ => ⟨by simp [Contained], fun p₃ h₃ =>
      ⟨?_, fun p₄ _ => ⟨by simp [Contained], trivial⟩⟩⟩⟩
    -- the exception is thrown in the try block
    cases h₁
    cases h₂
    refine ⟨fun _ args => ⟨?_, ?_⟩, ?_⟩ <;> intro h <;> cases h
  obtain ⟨-, -, hstatus⟩ := @returns_status plainName Process.init p' (.app 0) (.send _) _
    (.refl _) hp' (by simp [ProcessLabel.EntersBy])
  obtain ⟨st, hst, herror⟩ := (hstatus (Or.inl (by simp [hresult]))).2 hcontained
  refine ⟨p', hp', st, ?_, herror ⟨_, by simp, Or.inl rfl⟩⟩
  cases hresult.symm.trans hst
  exact hret

/-- An exception leaves a send, or a `qpidReceiveMessages`, when `createConnection` throws, and when
a second exception is thrown in the catch block. -/
theorem calls_throw :
    (¬ ∀ p p' t call ls res, (process plainName).Reachable Process.init p →
        (process plainName).run p (ApiCall.label t call :: ls) = some p' →
        (∀ l ∈ ls, ¬ l.EntersBy t) → call.result p' t = some res → ∃ st, res = .status st) ∧
      (∃ p', (process plainName).run Process.init
          [.send (.app 0) (.qpidSendMessage "message" "exchange" "reply"), .exec (.app 0) .ok,
            .exec (.app 0) .throw, .exec (.app 0) .throw] = some p' ∧
        p'.sender (.app 0) = .idle (some .threw)) ∧
      (∃ p', (process plainName).run Process.init
          [.messaging (.call (.app 0) (.qpidReceiveMessages 0 "exchange" true)),
            .messaging (.exec (.app 0) .throw)] = some p' ∧
        p'.messaging.frame (.app 0) = .idle (some .threw)) ∧
      ∃ p', (process plainName).run Process.init
          [.messaging (.call (.app 0) (.qpidReceiveMessages 0 "exchange" true)),
            .messaging (.exec (.app 0) .ok), .messaging (.exec (.app 0) .throw),
            .messaging (.exec (.app 0) .throw), .messaging (.exec (.app 0) .ok),
            .messaging (.exec (.app 0) .ok)] = some p' ∧
        p'.messaging.frame (.app 0) = .idle (some .threw) := by
  refine ⟨fun h => ?_, ⟨_, rfl, rfl⟩, ⟨_, rfl, rfl⟩, ⟨_, rfl, rfl⟩⟩
  have hrun : ∃ p', (process plainName).run Process.init
      [.send (.app 0) (.qpidSendMessage "message" "exchange" "reply"), .exec (.app 0) .throw] =
        some p' ∧ p'.sender (.app 0) = .idle (some .threw) := ⟨_, rfl, rfl⟩
  obtain ⟨p', hp', hret⟩ := hrun
  obtain ⟨st, hst⟩ := h Process.init p' (.app 0) (.send _) [.exec (.app 0) .throw] .threw
    (.refl _) hp' (by simp [ProcessLabel.EntersBy]) (by simp [ApiCall.result, hret])
  cases hst

end Comyno
