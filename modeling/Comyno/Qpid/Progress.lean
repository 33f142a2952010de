import Comyno.Qpid.Connection
import Comyno.Qpid.Sender

/-!
# A stop on the normal path does not block

A thread that stops a receiver waits for its worker, and the worker may wait for the process-wide
mutex, held by the worker of any other receiver.  No chain of waiting is longer: the holder of the
mutex runs a callback, which may be in the middle of a send, and both sends and callbacks return.

`Label.Autonomous` are the steps that do not wait for the outside world.  A worker may be blocked
in `receiverFetch` or `sessionAcknowledge` for as long as its connection was not closed, so these
count only after `closeConnection` was called.

An exception of `connectionIsOpen` in the catch block of a worker ends the process, and with it
every operation that has not returned.

## Main results

* `stop_progress` : on the normal path, as long as `connectionIsOpen` does not throw there, in every
  state in which an operation of an application thread has not returned, one of the three can take a
  step: the thread, the worker of the receiver it works on, or the holder of the mutex.  And once
  its flag is cleared, a worker enters its callback at most once more.
* `stop_blocked_of_isOpenThrow` : a run on the normal path in which it does throw.
-/

namespace Comyno

open Conc

/-- The call may wait for the broker while the connection is open. -/
def WorkerAct.waits : WorkerAct → Bool
  | .fetch _ | .fetchThrow | .acknowledge | .acknowledgeThrow _ => true
  | _ => false

/-- The step needs nothing from outside the library: it is no new call, and no call to the broker
on a connection that was not closed. -/
def Label.Autonomous (s : State) : Label → Prop
  | .work r a => a.waits = true → 0 < (s.recv r).closes
  | .exec _ _ | .pick _ _ => True
  | .call _ _ | .lost _ => False

/-- Callbacks call no operation of the library. -/
def CallbacksCallNothing (_ : State) (l : Label) : Prop := ∀ a c, l ≠ .call (.worker a) c

/-- The steps of the normal path. -/
structure NormalPath (s : State) (l : Label) : Prop where
  raceFree : RaceFree s l
  closes : CloseReturns s l
  callbacksReturn : CallbacksReturn s l
  callbacksCallNothing : CallbacksCallNothing s l

/-- What the normal path guarantees. -/
structure Normal (s : State) : Prop where
  /-- No callback executes an operation. -/
  worker_idle : ∀ a, s.frame (.worker a) = .idle none
  /-- The process runs, or `connectionIsOpen` threw in the catch block of a worker. -/
  halted : s.halted = none ∨ s.halted = some .worker
  /-- The connection of a stopped receiver was closed, or will be by the thread that stops it. -/
  closed : ∀ r, (s.recv r).thread ≠ .none → (s.recv r).mReceivingActive = false →
    0 < (s.recv r).closes ∨ ∃ t, (s.frame t).closes r

section Step

variable {s s' : State} {l : Label}

theorem Step.worker_idle (h : Step s l s') (hl : CallbacksCallNothing s l) {a : RecvId}
    (ha : s.frame (.worker a) = .idle none) : s'.frame (.worker a) = .idle none := by
  by_cases hla : l.thread = some (.worker a)
  · cases h <;> cases hla <;> simp_all [CallbacksCallNothing]
  · rw [h.frame_of_ne hla]
    exact ha

/-- The number of closes only grows. -/
theorem Step.closes_le (h : Step s l s') (r : RecvId) : (s.recv r).closes ≤ (s'.recv r).closes := by
  have hm := h.recv_move r
  generalize s'.recv r = R at hm
  cases hm with
  | work hw =>
    cases hw <;> simp [Receiver.closeConnection, Receiver.closeConnectionThrow,
      Receiver.sessionAcknowledge]
  | _ => simp [Receiver.closeConnection, Receiver.closeConnectionThrow]

namespace Normal

theorem init : Normal State.init where
  worker_idle _ := rfl
  halted := Or.inl rfl
  closed _ h := absurd rfl h

theorem closed_step (hn : Normal s) (hb : Born s) (h : Step s l s') :
    ∀ r, (s'.recv r).thread ≠ .none → (s'.recv r).mReceivingActive = false →
      0 < (s'.recv r).closes ∨ ∃ t, (s'.frame t).closes r := by
  intro r hthread hflag
  rcases h.stopped_of hb hthread hflag with ⟨hthread', hflag'⟩ | hclose
  · rcases hn.closed r hthread' hflag' with hpos | ⟨t, ht⟩
    · exact Or.inl (Nat.lt_of_lt_of_le hpos (h.closes_le r))
    · rcases h.closes_cases ht with ht' | hclosed | ⟨hthrew, -⟩
      · exact Or.inr ⟨t, ht'⟩
      · exact Or.inl (by simp [hclosed, Receiver.closeConnection])
      · exact Or.inl (by simp [hthrew, Receiver.closeConnectionThrow])
  · exact Or.inr hclose

/-- Only `connectionIsOpen` can end the process. -/
theorem halted_step (hn : Normal s) (ho : Owned s) (hc : CloseReturns s l) (hh : s.halted = none)
    (h : Step s l s') :
    s'.halted = none ∨ s'.halted = some .worker ∧ ∃ r, l = .work r .isOpenThrow := by
  cases h
  case work r a _ _ _ _ _ _ =>
    have hclose : a ≠ .closeThrow := fun ha => hc.2 r (by rw [ha])
    cases a <;> simp_all [WorkerAct.escapes]
  case indexNull t o e hf hnone =>
    obtain ⟨r, hr⟩ := ho.needs_reg t o e (by simp [hf])
    rw [State.Registered, hnone] at hr
    cases hr
  case dtorCloseThrow t k r hf => exact absurd (by simp [hf]) (hc.1 t r rfl)
  case dtorJoinThrow t k r hf hjoin =>
    rcases hjoin with rfl | hne
    · rw [hn.worker_idle r] at hf
      cases hf
    · exact absurd (ho.join_thread t r (by simp [hf])) hne
  all_goals exact Or.inl hh

theorem step (hn : Normal s) (hb : Born s) (ho : Owned s) (hc : NormalPath s l)
    (hh : s.halted = none) (h : Step s l s') : Normal s' where
  worker_idle a := h.worker_idle hc.callbacksCallNothing (hn.worker_idle a)
  halted := (hn.halted_step ho hc.closes hh h).imp_right And.left
  closed := hn.closed_step hb h

end Normal

end Step

section Enabled

variable {s : State}

/-- The worker of `r` can take a step that does not end the process. -/
theorem work_enabled (hh : s.halted = none) {r : RecvId} {a : WorkerAct} {last : Option Result}
    (hf : s.frame (.worker r) = .idle last) (hm : (a.mutex r s.mMutex).isSome = true)
    (hw : ((s.recv r).waitForMessages a).isSome = true) (ha : a.escapes = false) :
    ∃ s', qpid.step s (.work r a) = some s' ∧ s'.halted = none := by
  obtain ⟨m, hm⟩ := Option.isSome_iff_exists.1 hm
  obtain ⟨R, hw⟩ := Option.isSome_iff_exists.1 hw
  exact ⟨_, by simp [qpid, State.step, hh, State.work, hf, hm, hw]; rfl, by simp [ha]⟩

/-- The holder of the mutex can take a step, and waits for nothing. -/
theorem holder_enabled (hh : s.halted = none) (hn : Normal s) (hno : receiveLock.NoOrphan s)
    {r : RecvId} (hr : s.mMutex = some r) :
    ∃ a s', a.waits = false ∧ qpid.step s (.work r a) = some s' ∧ s'.halted = none := by
  have hpc : (s.recv r).pc.locked = true := hno r hr
  have hf := hn.worker_idle r
  cases h : (s.recv r).pc with
  | call m =>
    obtain ⟨s', hs'⟩ := work_enabled (a := .invoke) hh hf rfl
      (by simp [Receiver.waitForMessages, h]) rfl
    exact ⟨.invoke, s', rfl, hs'⟩
  | callback m =>
    obtain ⟨s', hs'⟩ := work_enabled (a := .callbackReturn) hh hf rfl
      (by simp [Receiver.waitForMessages, h]) rfl
    exact ⟨.callbackReturn, s', rfl, hs'⟩
  | unlock =>
    obtain ⟨s', hs'⟩ := work_enabled (a := .unlock) hh hf rfl
      (by simp [Receiver.waitForMessages, h]) rfl
    exact ⟨.unlock, s', rfl, hs'⟩
  | _ => simp [h, WorkerPc.locked] at hpc

/-- A worker that runs on a closed connection can take a step, or waits for the mutex. -/
theorem worker_enabled (hh : s.halted = none) (hn : Normal s) {r : RecvId}
    (hborn : (s.recv r).pc ≠ .unborn) (hexit : (s.recv r).pc ≠ .exited) :
    (∃ a s', qpid.step s (.work r a) = some s' ∧ s'.halted = none) ∨
      ∃ q, s.mMutex = some q := by
  have hf := hn.worker_idle r
  have step : ∀ a : WorkerAct, (a.mutex r s.mMutex).isSome = true →
      ((s.recv r).waitForMessages a).isSome = true → a.escapes = false →
      ∃ a s', qpid.step s (.work r a) = some s' ∧ s'.halted = none := fun a hm hw ha =>
    ⟨a, work_enabled hh hf hm hw ha⟩
  cases h : (s.recv r).pc with
  | unborn => exact absurd h hborn
  | exited => exact absurd h hexit
  | test => exact Or.inl (step .test rfl (by simp [Receiver.waitForMessages, h]) rfl)
  | fetch => exact Or.inl (step .fetchThrow rfl (by simp [Receiver.waitForMessages, h]) rfl)
  | lock m =>
    cases hm : s.mMutex with
    | some q => exact Or.inr ⟨q, rfl⟩
    | none =>
      exact Or.inl (step .lock (by simp [WorkerAct.mutex, hm])
        (by simp [Receiver.waitForMessages, h]) rfl)
  | call m => exact Or.inl (step .invoke rfl (by simp [Receiver.waitForMessages, h]) rfl)
  | callback m =>
    exact Or.inl (step .callbackReturn rfl (by simp [Receiver.waitForMessages, h]) rfl)
  | unlock => exact Or.inl (step .unlock rfl (by simp [Receiver.waitForMessages, h]) rfl)
  | acknowledge =>
    exact Or.inl (step (.acknowledgeThrow false) rfl (by simp [Receiver.waitForMessages, h]) rfl)
  | handler => exact Or.inl (step .isOpen rfl (by simp [Receiver.waitForMessages, h]) rfl)
  | handlerClose => exact Or.inl (step .close rfl (by simp [Receiver.waitForMessages, h]) rfl)

/-- The thread can take a step that waits for nothing and does not end the process. -/
def State.CanAct (s : State) (t : Thread) : Prop :=
  ∃ l s', l.actor = some t ∧ l.Autonomous s ∧ qpid.step s l = some s' ∧ s'.halted = none

theorem canAct_of_exec (hh : s.halted = none) {t : Thread} {s' : State}
    (h : s.exec t .ok = some s') (hs' : s'.halted = none) : s.CanAct t :=
  ⟨.exec t .ok, s', rfl, trivial, by simpa [qpid, State.step, hh] using h, hs'⟩

theorem canAct_of_pick (hh : s.halted = none) {t : Thread} {e : String} {s' : State}
    (h : s.pick t e = some s') (hs' : s'.halted = none) : s.CanAct t :=
  ⟨.pick t e, s', rfl, trivial, by simpa [qpid, State.step, hh] using h, hs'⟩

/-- An application thread inside an operation can take a step, or waits to join a worker that has
not ended. -/
theorem operation_enabled (hh : s.halted = none) (ho : Owned s) {o : ObjId}
    (hf : ∀ last, s.frame (.app o) ≠ .idle last) :
    s.CanAct (.app o) ∨ ∃ r, (s.frame (.app o)).joins r ∧ (s.recv r).pc ≠ .exited := by
  cases h : s.frame (.app o) with
  | idle last => exact absurd h (hf last)
  | construct p e => exact Or.inl (canAct_of_exec hh (by simp [State.exec, h]; rfl) (by simp [hh]))
  | start pc p e r =>
    cases pc <;> exact Or.inl
      (canAct_of_exec hh (by simp [State.exec, State.receiveMessages, h]; rfl) (by simp [hh]))
  | emplace p e r =>
    cases hr : (s.activeReceivers p).lookup e with
    | none => exact Or.inl (canAct_of_exec hh (by simp [State.exec, h, hr]; rfl) (by simp [hh]))
    | some q => exact Or.inl (canAct_of_exec hh (by simp [State.exec, h, hr]; rfl) (by simp [hh]))
  | index p e =>
    -- the entry found by the call is still there
    obtain ⟨r, hr⟩ := ho.needs_reg (.app o) p e (by simp [h])
    exact Or.inl (canAct_of_exec hh
      (by simp [State.exec, h, show _ = _ from hr]; rfl) (by simp [hh]))
  | stop pc k r =>
    cases pc with
    | test =>
      by_cases ha : (s.recv r).mReceivingActive = true <;> exact Or.inl
        (canAct_of_exec hh (by simp [State.exec, State.receiveStop, h, ha]; rfl) (by simp [hh]))
    | clear | close =>
      exact Or.inl
        (canAct_of_exec hh (by simp [State.exec, State.receiveStop, h]; rfl) (by simp [hh]))
    | joinable =>
      by_cases hj : (s.recv r).thread = .joinable <;> exact Or.inl
        (canAct_of_exec hh (by simp [State.exec, State.receiveStop, h, hj]; rfl) (by simp [hh]))
    | join =>
      have hj := ho.join_thread (.app o) r (by simp [h])
      by_cases hx : (s.recv r).pc = .exited
      · exact Or.inl (canAct_of_exec hh
          (by simp [State.exec, State.receiveStop, h, hj, hx]; rfl) (by simp [hh]))
      · exact Or.inr ⟨r, by simp, hx⟩
  | erase p e st =>
    cases hr : (s.activeReceivers p).lookup e with
    | none => exact Or.inl (canAct_of_exec hh (by simp [State.exec, h, hr]; rfl) (by simp [hh]))
    | some q => exact Or.inl (canAct_of_exec hh (by simp [State.exec, h, hr]; rfl) (by simp [hh]))
  | dtor pc k r =>
    cases pc with
    | test =>
      by_cases ha : (s.recv r).mReceivingActive = true <;> exact Or.inl
        (canAct_of_exec hh (by simp [State.exec, State.destroyReceiver, h, ha]; rfl) (by simp [hh]))
    | clear | close =>
      exact Or.inl
        (canAct_of_exec hh (by simp [State.exec, State.destroyReceiver, h]; rfl) (by simp [hh]))
    | joinable =>
      by_cases hj : (s.recv r).thread = .joinable <;> exact Or.inl
        (canAct_of_exec hh (by simp [State.exec, State.destroyReceiver, h, hj]; rfl) (by simp [hh]))
    | join =>
      have hj := ho.join_thread (.app o) r (by simp [h])
      by_cases hx : (s.recv r).pc = .exited
      · exact Or.inl (canAct_of_exec hh
          (by simp [State.exec, State.destroyReceiver, h, hj, hx]; rfl) (by simp [hh]))
      · exact Or.inr ⟨r, by simp, hx⟩
  | stopAll p todo =>
    cases todo with
    | nil => exact Or.inl (canAct_of_exec hh (by simp [State.exec, h]; rfl) (by simp [hh]))
    | cons e todo =>
      obtain ⟨r, hr⟩ := ho.needs_reg (.app o) p e (by simp [h])
      exact Or.inl (canAct_of_pick hh (e := e)
        (by simp [State.pick, h, show _ = _ from hr]; rfl) (by simp [hh]))
  | clearAll p =>
    cases he : (s.activeReceivers p).entries with
    | nil => exact Or.inl (canAct_of_exec hh (by simp [State.exec, h, he]; rfl) (by simp [hh]))
    | cons x xs =>
      have hx : x.1 ∈ (s.activeReceivers p).keys := by simp [AList.keys, he]
      obtain ⟨r, hr⟩ := Option.isSome_iff_exists.1 (AList.lookup_isSome.2 (AList.mem_keys.2 hx))
      exact Or.inl (canAct_of_pick hh (e := x.1) (by simp [State.pick, h, hr]; rfl) (by simp [hh]))

end Enabled

/-- The invariants of the normal path. -/
structure OnNormalPath (s : State) : Prop where
  life : Life s
  born : Born s
  owned : Owned s
  normal : Normal s
  noOrphan : receiveLock.NoOrphan s

theorem onNormalPath_of_reachable {s : State} (h : qpid.ReachableWhere NormalPath State.init s) :
    OnNormalPath s := by
  have hbase : ∀ s, qpid.ReachableWhere NormalPath State.init s →
      (Life s ∧ Born s) ∧ Owned s := fun s hs =>
    ⟨life_and_born_of_reachable hs, owned_of_reachable (fun _ _ hc => hc.raceFree) hs⟩
  have hn : Normal s := h.invariant_of (J := Normal) hbase Normal.init
    fun s l s' hi hn hc hst => by
      obtain ⟨hh, hstep⟩ := step_cases hst
      exact hn.step hi.1.2 hi.2 hc hh hstep
  have hno : receiveLock.NoOrphan s := receiveLock_follows.noOrphan_of_reachable
    (fun _ _ hc => keepsLock_iff.2 hc.callbacksReturn) h ⟨Life.init, Born.init⟩
    receiveLock_noOrphan_init
  exact ⟨(hbase s h).1.1, (hbase s h).1.2, (hbase s h).2, hn, hno⟩

/-- The worker of `r` enters its callback at most this often before it ends, once its flag is
cleared. -/
def WorkerPc.callbacksLeft : WorkerPc → ℕ
  | .fetch | .lock _ | .call _ => 1
  | _ => 0

theorem Step.callbacksLeft {s s' : State} {l : Label} (h : Step s l s') (hb : Born s) {r : RecvId}
    (hthread : (s.recv r).thread ≠ .none) (hflag : (s.recv r).mReceivingActive = false) :
    (if decide (l = .work r .invoke) then 1 else 0) + (s'.recv r).pc.callbacksLeft ≤
      (s.recv r).pc.callbacksLeft := by
  rcases h.pc_cases hb r with hpc | ⟨a, -, rfl, -, hw⟩ | ⟨hpc, -⟩
  · have hl : l ≠ .work r .invoke := by
      rintro rfl
      cases h with
      | work _ _ hw =>
        cases hw
        simp_all
    simp [hl, hpc]
  · generalize s'.recv r = R at hw
    cases hw <;> simp_all [WorkerPc.callbacksLeft]
  · exact absurd ((hb.wf r).unborn_iff.1 hpc) hthread

/-- Once its flag is cleared, a worker enters its callback at most once. -/
theorem callbacks_le_one {s s' : State} {ls : List Label} (hs : Life s) (hb : Born s) {r : RecvId}
    (hthread : (s.recv r).thread ≠ .none) (hflag : (s.recv r).mReceivingActive = false)
    (hrun : qpid.run s ls = some s') :
    ls.countP (fun l => decide (l = .work r .invoke)) ≤ 1 := by
  have hcount := Machine.countP_add_le (M := qpid) (p := fun l => decide (l = .work r .invoke))
    (I := fun s => (Life s ∧ Born s) ∧ (s.recv r).thread ≠ .none ∧
      (s.recv r).mReceivingActive = false) (D := fun _ _ => True)
    (μ := fun s => (s.recv r).pc.callbacksLeft)
    (fun s l s' ⟨⟨hs, hb⟩, hthread, hflag⟩ _ hst =>
      have h := (step_cases hst).2
      ⟨⟨hs.step h, hb.step hs h⟩, h.thread_ne_none hthread, h.inactive_of_thread hb hthread hflag⟩)
    (fun s l s' ⟨⟨_, hb⟩, hthread, hflag⟩ _ hst =>
      (step_cases hst).2.callbacksLeft hb hthread hflag)
    ⟨⟨hs, hb⟩, hthread, hflag⟩ hrun (Machine.allSteps_of_labels fun _ _ _ => trivial)
  have hle : (s.recv r).pc.callbacksLeft ≤ 1 := by
    cases (s.recv r).pc <;> simp [WorkerPc.callbacksLeft]
  exact le_trans (Nat.le_add_right _ _) (le_trans hcount hle)

/-- `connectionIsOpen` does not throw in the catch block of a worker. -/
def IsOpenReturns (_ : State) (l : Label) : Prop := ∀ r, l ≠ .work r .isOpenThrow

/-- The steps of the normal path on which `connectionIsOpen` does not throw. -/
def NormalRun (s : State) (l : Label) : Prop := NormalPath s l ∧ IsOpenReturns s l

/-- On the normal path, nothing but `connectionIsOpen` ends the process. -/
theorem running_of_reachable {s : State} (h : qpid.ReachableWhere NormalRun State.init s) :
    s.halted = none := by
  refine h.invariant_of (I := OnNormalPath) (J := fun s => s.halted = none)
    (fun s hs => onNormalPath_of_reachable (hs.mono fun _ _ hc => hc.1)) rfl
    fun s l s' hi hh hc hst => ?_
  rcases hi.normal.halted_step hi.owned hc.1.closes hh (step_cases hst).2 with hh' | ⟨-, r, hl⟩
  · exact hh'
  · exact absurd hl (hc.2 r)

/-! ### With sends -/

/-- The thread that takes a step. -/
def ProcessLabel.actor : ProcessLabel → Option Thread
  | .messaging l => l.actor
  | .send t _ | .exec t _ => some t

/-- The step needs nothing from outside the library.  The calls of a send return or throw. -/
def ProcessLabel.Autonomous (p : Process) : ProcessLabel → Prop
  | .messaging l => l.Autonomous p.messaging
  | .exec _ _ => True
  | .send _ _ => False

/-- The thread can take a step that waits for nothing and does not end the process. -/
def Process.CanAct (parse : AddressParser) (p : Process) (t : Thread) : Prop :=
  ∃ l p', l.actor = some t ∧ l.Autonomous p ∧ (process parse).step p l = some p' ∧
    p'.messaging.halted = none

/-- The operation of the application thread of `o` can go on: the thread can take a step, or the
worker of the receiver it works on, or the worker that holds the mutex. -/
def Process.Unblocked (parse : AddressParser) (p : Process) (o : ObjId) : Prop :=
  p.CanAct parse (.app o) ∨
    (∃ r, (p.messaging.frame (.app o)).recv = some r ∧ p.CanAct parse (.worker r)) ∨
    ∃ q, p.messaging.mMutex = some q ∧ p.CanAct parse (.worker q)

/-- What a thread can do without sends, it can do with them, or it goes on with its send. -/
theorem Process.canAct_of_messaging {parse : AddressParser} {p : Process} {t : Thread}
    (hh : p.messaging.halted = none) (h : p.messaging.CanAct t) : p.CanAct parse t := by
  cases hf : p.sender t with
  | sending pc args =>
    obtain ⟨x, f, hx, -⟩ := args.exists_sendMessage parse pc
    refine ⟨.exec t x, (p.record t (args.calls x pc)).goto t f, rfl, trivial, ?_, hh⟩
    simp [process, Process.step, hh, hf, hx]
  | idle last =>
    obtain ⟨l, s, hactor, hauto, hst, hs⟩ := h
    refine ⟨.messaging l, { p with messaging := s }, hactor, hauto, ?_, hs⟩
    have hst' : p.messaging.step l = some s := hst
    simp [process, Process.step, hactor, Process.idle, hf, hst']

/-- In every state in which an operation of an application thread has not returned, the thread, the
worker of the receiver it works on or the holder of the mutex can take a step. -/
theorem OnNormalPath.exists_canAct {s : State} (hs : OnNormalPath s) (hh : s.halted = none)
    {o : ObjId} (hf : ∀ last, s.frame (.app o) ≠ .idle last) :
    s.CanAct (.app o) ∨ (∃ r, (s.frame (.app o)).recv = some r ∧ s.CanAct (.worker r)) ∨
      ∃ q, s.mMutex = some q ∧ s.CanAct (.worker q) := by
  obtain ⟨hlife, hborn, howned, hn, hno⟩ := hs
  rcases operation_enabled hh howned hf with hact | ⟨r, hjoin, hx⟩
  · exact Or.inl hact
  · have hrecv := Frame.recv_of_joins hjoin
    have hthread := howned.join_thread _ r hjoin
    have hpc : (s.recv r).pc ≠ .unborn := fun hpc => by
      rw [(hborn.wf r).unborn_iff.1 hpc] at hthread
      cases hthread
    -- the thread that waits has closed the connection
    have hclosed : 0 < (s.recv r).closes := by
      rcases hn.closed r (by simp [hthread]) (hborn.joins_inactive hjoin) with hpos | ⟨u, hu⟩
      · exact hpos
      · obtain rfl := howned.recv_unique hlife hrecv (Frame.recv_of_closes hu)
        cases hframe : s.frame (.app o) <;> simp_all
    rcases worker_enabled hh hn hpc hx with ⟨a, s', hst, hs'⟩ | ⟨q, hq⟩
    · exact Or.inr (Or.inl ⟨r, hrecv, .work r a, s', rfl, fun _ => hclosed, hst, hs'⟩)
    · obtain ⟨a, s', ha, hst, hs'⟩ := holder_enabled hh hn hno hq
      exact Or.inr (Or.inr ⟨q, hq, .work q a, s', rfl, by simp [Label.Autonomous, ha], hst, hs'⟩)

/-- **A stop on the normal path does not block**, as long as `connectionIsOpen` does not throw in
the catch block of a worker.  In every state in which an operation of an application thread has not
returned, the thread, the worker of the receiver it works on or the holder of the mutex, which may
be in the middle of a send, can take a step.  And from the moment its flag is cleared, a worker
enters its callback at most once. -/
theorem stop_progress {parse : AddressParser} {p : Process}
    (h : (process parse).ReachableWhere (OfMessaging NormalRun) Process.init p) :
    (∀ o, (∀ last, p.messaging.frame (.app o) ≠ .idle last) → p.Unblocked parse o) ∧
    ∀ r ls p', (p.messaging.recv r).thread ≠ .none →
      (p.messaging.recv r).mReceivingActive = false → (process parse).run p ls = some p' →
      ls.countP (fun l => decide (l = .messaging (.work r .invoke))) ≤ 1 := by
  have hreach := messaging_reachableWhere h
  have hs := onNormalPath_of_reachable (hreach.mono fun _ _ hc => hc.1)
  have hh := running_of_reachable hreach
  refine ⟨fun o hf => ?_, fun r ls p' hthread hflag hrun => ?_⟩
  · rcases hs.exists_canAct hh hf with hact | ⟨r, hr, hact⟩ | ⟨q, hq, hact⟩
    · exact Or.inl (Process.canAct_of_messaging hh hact)
    · exact Or.inr (Or.inl ⟨r, hr, Process.canAct_of_messaging hh hact⟩)
    · exact Or.inr (Or.inr ⟨q, hq, Process.canAct_of_messaging hh hact⟩)
  · have hcount := callbacks_le_one hs.life hs.born hthread hflag (process_maps.run_filterMap hrun)
    rw [List.countP_filterMap] at hcount
    refine le_trans (List.countP_mono_left fun l _ hl => ?_) hcount
    simp [of_decide_eq_true hl, ProcessLabel.label]

/-- The label is on the normal path wherever its step is race free. -/
def Label.isNormal : Label → Bool
  | .exec _ .throw | .work _ .closeThrow | .work _ .callbackThrow | .call (.worker _) _ => false
  | _ => true

theorem normalPath_of_label {s : State} {l : Label} (h : l.isNormal = true) :
    CloseReturns s l ∧ CallbacksReturn s l ∧ CallbacksCallNothing s l := by
  refine ⟨⟨fun t r hl => ?_, fun r hl => ?_⟩, fun r hl => ?_, fun a c hl => ?_⟩ <;>
    rw [hl] at h <;> cases h

/-- A run of one application thread on the normal path. -/
theorem normalPath_of_run {s : State} {ls : List Label} (h : qpid.run State.init ls = some s)
    (happ : ∀ l ∈ ls, ∀ s, AppOnly s l) (hnormal : ∀ l ∈ ls, l.isNormal = true) :
    qpid.ReachableWhere NormalPath State.init s :=
  (raceFree_and_of_run h happ fun l hl _ => normalPath_of_label (hnormal l hl)).mono
    fun _ _ hc => ⟨hc.1, hc.2.1, hc.2.2.1, hc.2.2.2⟩

theorem normalPath_of_raceFree {s : State} {l : Label} (hr : RaceFree s l)
    (hl : l.isNormal = true) : NormalPath s l := by
  obtain ⟨hcloses, hreturn, hcall⟩ := normalPath_of_label (s := s) hl
  exact ⟨hr, hcloses, hreturn, hcall⟩

/-- The same with sends. -/
theorem processNormal_of_run {parse : AddressParser} {p : Process} {ls : List ProcessLabel}
    {C : Label → Prop} (h : (process parse).run Process.init ls = some p)
    (happ : ∀ l ∈ ls.filterMap ProcessLabel.label, ∀ s, AppOnly s l)
    (hnormal : ∀ l ∈ ls.filterMap ProcessLabel.label, l.isNormal = true)
    (hC : ∀ l ∈ ls.filterMap ProcessLabel.label, C l) :
    (process parse).ReachableWhere (OfMessaging fun s l => NormalPath s l ∧ C l)
      Process.init p := by
  have hlabels : ∀ l ∈ ls, ∀ (p : Process) l', l.label = some l' →
      AppOnly p.messaging l' ∧ l'.isNormal = true ∧ C l' := by
    intro l hl p l' hl'
    have hmem : l' ∈ ls.filterMap ProcessLabel.label := List.mem_filterMap.2 ⟨l, hl, hl'⟩
    exact ⟨happ l' hmem _, hnormal l' hmem, hC l' hmem⟩
  refine (Machine.reachableWhere_of_run h
    (raceFree_of_maps process_maps AppStops.init hlabels)).mono fun p l hc l' hl' => ?_
  obtain ⟨hrace, hn, hC'⟩ := hc l' hl'
  exact ⟨normalPath_of_raceFree hrace hn, hC'⟩

/-- A stop waits for a worker that waits for the callback of another receiver, which sends. -/
def waitingStop : List ProcessLabel :=
  sendingCallback ++ (.call (.app 1) (.qpidReceiveStop 1 "exchange") ::
    List.replicate 5 (.exec (.app 1) .ok)).map .messaging

theorem stop_progress_of_waiting :
    ∃ p, (process plainName).run Process.init waitingStop = some p ∧
      p.messaging.frame (.app 1) = .stop .join (.receiveStop 1 "exchange") 1 ∧
      (p.messaging.recv 1).pc = .lock ⟨"second", ⟨"reply"⟩⟩ ∧ p.messaging.mMutex = some 0 ∧
      p.idle (.worker 0) = false ∧ p.Unblocked plainName 1 := by
  have hrun : ∃ p, (process plainName).run Process.init waitingStop = some p ∧
      p.messaging.frame (.app 1) = .stop .join (.receiveStop 1 "exchange") 1 ∧
      (p.messaging.recv 1).pc = .lock ⟨"second", ⟨"reply"⟩⟩ ∧ p.messaging.mMutex = some 0 ∧
      p.idle (.worker 0) = false := ⟨_, rfl, rfl, rfl, rfl, rfl⟩
  obtain ⟨p, hp, hf, hpc, hown, hsend⟩ := hrun
  have hlabels : waitingStop.filterMap ProcessLabel.label =
      startLabels 0 "exchange" ++ startLabels 1 "exchange" ++
        callbackLabels 0 ⟨"first", ⟨"reply"⟩⟩ ++
        (callbackLabels 1 ⟨"second", ⟨"reply"⟩⟩).take 2 ++
        .call (.app 1) (.qpidReceiveStop 1 "exchange") ::
          List.replicate 5 (.exec (.app 1) .ok) := rfl
  have hreach : (process plainName).ReachableWhere (OfMessaging NormalRun) Process.init p := by
    refine processNormal_of_run (C := IsOpenReturns State.init) hp ?_ ?_ ?_ <;> rw [hlabels]
    · simp [startLabels, callbackLabels, AppOnly, Operation.object]
    · decide
    · simp [startLabels, callbackLabels, IsOpenReturns]
  exact ⟨p, hp, hf, hpc, hown, hsend, (stop_progress hreach).1 1 (by simp [hf])⟩

/-- A worker whose fetch has thrown asks whether its connection is open, and gets an exception,
while its exchange is being stopped. -/
def isOpenThrowStop : List Label :=
  startLabels 0 "exchange" ++ [.work 0 .test, .work 0 .fetchThrow,
    .call (.app 0) (.qpidReceiveStop 0 "exchange"), .work 0 .isOpenThrow]

/-- **A stop that never returns.**  `connectionIsOpen` throws in the catch block of the worker, on
the normal path otherwise: the process has ended, and the stop has not returned. -/
theorem stop_blocked_of_isOpenThrow :
    ¬ ∀ p, (process plainName).ReachableWhere (OfMessaging NormalPath) Process.init p →
      ∀ o, (∀ last, p.messaging.frame (.app o) ≠ .idle last) → p.Unblocked plainName o := by
  intro h
  have hrun : ∃ s, qpid.run State.init isOpenThrowStop = some s ∧
      s.frame (.app 0) = .index 0 "exchange" ∧ s.halted = some .worker := ⟨_, rfl, rfl, rfl⟩
  obtain ⟨s, hs, hf, hhalt⟩ := hrun
  have hreach : qpid.ReachableWhere NormalPath State.init s := by
    refine normalPath_of_run hs ?_ (by decide)
    simp [isOpenThrowStop, startLabels, AppOnly, Operation.object]
  -- nothing is enabled in a process that has ended
  have hnone : ∀ t, ¬ Process.CanAct plainName { messaging := s } t := by
    rintro t ⟨l, p', -, -, hst, -⟩
    have hrunning : s.halted = none := process_halted_of_step hst
    rw [hhalt] at hrunning
    cases hrunning
  rcases h _ (process_reachableWhere plainName hreach) 0 (by simp [hf]) with
    hact | ⟨_, -, hact⟩ | ⟨_, -, hact⟩ <;> exact hnone _ hact

end Comyno
