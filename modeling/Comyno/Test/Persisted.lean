import Comyno.Qpid.Acknowledge
import Comyno.Qpid.ReceiveLock
import Comyno.Test.Archive
import Comyno.Test.Callback
import Comyno.Test.Commands

/-!
# The messages that receivers persist

A receiver started with `receiveAndPersistCallback` calls `pgMessagePersist` once for each message
whose callback returns, and for one more at most: the one that it has in hand.  So an acknowledged
message was handed to `pgMessagePersist`; whether it is in the database is up to the status of this
call, which the callback prints and forgets.

## Main results

* `QuietMove`, `ProgramStep.quiet_move` : what a step does to a receiver to which no
  `pgMessagePersist` returns.
* `ProgramStep.of_returns` : what a step does in which it returns.
* `archive_exact` : the calls of the main thread, the calls of each receiver, and the rows.
* `archive_roundTrip` : queries return what these calls have stored.
-/

namespace Comyno

open Conc

/-- The receiver runs `receiveAndPersistCallback`. -/
def Program.Persisting (p : Program) (r : RecvId) : Prop :=
  ∃ e, p.startedBy r = some (.receiveMessagesAndPersist e)

/-- The messages for which the callback of `r` has called `pgMessagePersist` up to the end of the
transaction, as long as its worker is in the receive loop; `ended` says that the one of the present
call has ended. -/
def Program.persisted (p : Program) (r : RecvId) (ended : Bool) : List Message :=
  match (p.recv r).pc with
  | .callback m =>
    if ended ∨ p.callback r = .done then (p.recv r).processed ++ [m] else (p.recv r).processed
  | _ => (p.recv r).processed

/-! ### Steps -/

/-- What a step does to a receiver, if no `pgMessagePersist` returns to it. -/
inductive QuietMove (p p' : Program) (r : RecvId) : Prop
  /-- Its worker thread was not created before the step. -/
  | unborn : (p.recv r).pc = .unborn → (p'.recv r).pc.inCallback = false →
      (p'.recv r).fetched = (p.recv r).fetched → (p'.recv r).processed = (p.recv r).processed →
      QuietMove p p' r
  | same : p'.startedBy r = p.startedBy r → (p'.recv r).pc = (p.recv r).pc →
      (p'.recv r).fetched = (p.recv r).fetched → (p'.recv r).processed = (p.recv r).processed →
      (p'.recv r).mExchange = (p.recv r).mExchange →
      (p.Persisting r → (p'.callback r = .done ↔ p.callback r = .done)) → QuietMove p p' r
  /-- A step of its worker. -/
  | work {a : WorkerAct} : p'.startedBy r = p.startedBy r → WorkStep (p.recv r) a (p'.recv r) →
      (a = .callbackReturn → p.callback r = .done) → (a = .invoke → p'.callback r = .start) →
      QuietMove p p' r

section Step

variable {parse : AddressParser} {p p' : Program} {l : ProgramLabel} {r : RecvId}

/-- A receiver whose worker thread exists keeps its command. -/
theorem recordStarted_of_born {b : BrokeredLabel} (hborn : Born p.messaging)
    (hr : (p.recv r).pc ≠ .unborn) : p.recordStarted b r = p.startedBy r :=
  recordStarted_of_joinable hborn fun hnone => hr ((hborn.wf r).unborn_iff.2 hnone)

/-- A step of the library. -/
theorem quiet_move_of_library {l : BrokeredLabel} {b : Brokered} (hborn : Born p.messaging)
    (hallowed : p.allows l = true) (hb : (brokered parse).step p.brokered l = some b) :
    QuietMove p (p.afterLibrary l b) r := by
  rcases (brokered_maps_messaging parse).step_cases hb with ⟨hnone, hsame⟩ | ⟨l', hl, hst⟩
  · have hrecv : (p.afterLibrary l b).recv r = p.recv r := congrArg (·.recv r) hsame
    have hcallback : p.enter l r = p.callback r := Program.enter_of_ne (by rintro rfl; cases hnone)
    refine .same (congrFun (recordStarted_of_messaging hnone) r) ?_ ?_ ?_ ?_ fun _ => ?_
    · rw [hrecv]
    · rw [hrecv]
    · rw [hrecv]
    · rw [hrecv]
    · rw [Program.afterLibrary_callback, hcallback]
  have hst : Step p.messaging l' b.process.messaging := (Comyno.step_cases hst).2
  by_cases hwork : ∃ a, l' = .work r a
  · obtain ⟨a, rfl⟩ := hwork
    have hw := hst.work_step
    refine .work (recordStarted_of_born hborn hw.pc_ne.1) hw ?_ ?_
    · rintro rfl
      rcases BrokeredLabel.messaging_cases hl with rfl | ⟨_, _, _, -, hfetch⟩
      · exact of_decide_eq_true hallowed
      · cases hfetch
    · rintro rfl
      rcases BrokeredLabel.messaging_cases hl with rfl | ⟨_, _, _, -, hfetch⟩
      · simp [Program.enter]
      · cases hfetch
  · have hcallback : p.enter l r = p.callback r := by
      refine Program.enter_of_ne ?_
      rintro rfl
      cases hl
      exact hwork ⟨_, rfl⟩
    have hm := hst.recv_move r
    generalize hR : b.process.messaging.recv r = R at hm
    have hR : (p.afterLibrary l b).recv r = R := hR
    by_cases hunborn : (p.recv r).pc = .unborn
    · refine .unborn hunborn ?_ ?_ ?_ <;> rw [hR] <;> cases hm <;>
        first
        | exact absurd ⟨_, rfl⟩ hwork
        | rfl
        | (change (p.recv r).pc.inCallback = false; rw [hunborn]; rfl)
    · have hno : ∀ t pc o e, p.messaging.frame t ≠ .start pc o e r := fun t pc o e hf =>
        hunborn ((hborn.wf r).unborn_iff.2 (hborn.start_thread t pc o e r hf))
      refine .same (recordStarted_of_born hborn hunborn) ?_ ?_ ?_ ?_ fun _ => ?_
      · rw [hR]
        cases hm <;> first | exact absurd ⟨_, rfl⟩ hwork | exact absurd ‹_› (hno _ _ _ _) | rfl
      · rw [hR]
        cases hm <;> first | exact absurd ⟨_, rfl⟩ hwork | rfl
      · rw [hR]
        cases hm <;> first | exact absurd ⟨_, rfl⟩ hwork | rfl
      · rw [hR]
        cases hm <;> first | exact absurd ⟨_, rfl⟩ hwork | exact absurd ‹_› (hno _ _ _ _) | rfl
      · rw [Program.afterLibrary_callback, hcallback]

/-- What `receiveAndPersistCallback` does. -/
theorem Program.Persisting.act_cases (hp : p.Persisting r) {a : CallbackAct}
    (ha : p.act r = some a) :
    p.callback r = .start ∧ a = .goto .persist ∨
      p.callback r = .persist ∧ a = .pgMessagePersist .persisting ∨
      p.callback r = .persisting ∧ a = .pgMessagePersist .done := by
  obtain ⟨m, c, -, hc, hstep⟩ := Program.act_cases ha
  obtain ⟨e, he⟩ := hp
  cases hc.symm.trans he
  generalize p.callback r = place at hstep
  cases hstep with
  | toPersist => exact Or.inl ⟨rfl, rfl⟩
  | persist => exact Or.inr (Or.inl ⟨rfl, rfl⟩)
  | persisting => exact Or.inr (Or.inr ⟨rfl, rfl⟩)

/-- Only `receiveAndPersistCallback` calls `pgMessagePersist`. -/
theorem Program.persisting_of_act {pc : CallbackPc}
    (ha : p.act r = some (.pgMessagePersist pc)) : p.Persisting r := by
  obtain ⟨m, c, -, hc, hstep⟩ := Program.act_cases ha
  generalize p.callback r = place at hstep
  cases hstep with
  | persist | persisting => exact ⟨_, hc⟩

/-- **What a step does to a receiver to which no `pgMessagePersist` returns.** -/
theorem ProgramStep.quiet_move (h : ProgramStep parse p l p') (hborn : Born p.messaging)
    (hl : p.returns l ≠ some r) : QuietMove p p' r := by
  by_cases hlib : ∀ b, l ≠ .library b
  · have hrecv := h.recv_eq hlib r
    have hstarted := congrFun (h.startedBy_eq hlib) r
    refine .same hstarted (by rw [hrecv]) (by rw [hrecv]) (by rw [hrecv]) (by rw [hrecv]) ?_
    intro hp
    cases h with
    | @goto q pc ha =>
      by_cases hrq : r = q
      · subst hrq
        rcases hp.act_cases ha with ⟨hold, hact⟩ | ⟨-, hact⟩ | ⟨-, hact⟩ <;> cases hact
        simp [hold]
      · simp [hrq]
    | @pgMessagePersist q pc ha hd =>
      by_cases hrq : r = q
      · subst hrq
        rcases hp.act_cases ha with ⟨-, hact⟩ | ⟨hold, hact⟩ | ⟨-, hact⟩ <;> cases hact
        · simp [hold]
        · obtain ⟨m, c, hm, -⟩ := Program.act_cases ha
          exact absurd (by simp [Program.returns, Program.calling, hm, ha, hd]) hl
      · simp [hrq]
    | @index q _ _ ha | @qpidSendMessage q _ _ _ ha | @await q _ ha =>
      by_cases hrq : r = q
      · subst hrq
        rcases hp.act_cases ha with ⟨-, hact⟩ | ⟨-, hact⟩ | ⟨-, hact⟩ <;> cases hact
      · simp [hrq]
    | library => exact absurd rfl (hlib _)
    | read | input | finish | enter | call | returned | erase | destroy | destructor | destroyed
    | indexFault | pgMessagePersistFault => exact Iff.rfl
  · push Not at hlib
    obtain ⟨b, rfl⟩ := hlib
    cases h with
    | library hallowed hb => exact quiet_move_of_library hborn hallowed hb

/-- A callback that is in `pgMessagePersist` has its message in hand. -/
theorem Program.calling_persisting {message exchange : String}
    (h : p.calling r = some (message, exchange)) : ∃ m, (p.recv r).pc = .callback m ∧
      message = m.content ∧ exchange = (p.recv r).mExchange ∧ p.Persisting r ∧
      p.callback r ≠ .done := by
  obtain ⟨m, hm, ha, -, hmessage, hexchange⟩ := Program.calling_cases h
  have hp := Program.persisting_of_act ha
  refine ⟨m, hm, hmessage, hexchange, hp, ?_⟩
  rcases hp.act_cases ha with ⟨-, hact⟩ | ⟨-, hact⟩ | ⟨hplace, -⟩
  · cases hact
  · cases hact
  · simp [hplace]

/-- **What a step does in which `pgMessagePersist` returns to the callback of `r`.** -/
theorem ProgramStep.of_returns (h : ProgramStep parse p (.callback r) p')
    (hcalling : p.calling r ≠ none) :
    p'.recv r = p.recv r ∧ p'.startedBy r = p.startedBy r ∧ p'.callback r = .done := by
  obtain ⟨⟨message, exchange⟩, hcalling⟩ := Option.ne_none_iff_exists'.1 hcalling
  obtain ⟨m, -, ha, hd, -⟩ := Program.calling_cases hcalling
  refine ⟨h.recv_eq (by simp) r, congrFun (h.startedBy_eq (by simp)) r, ?_⟩
  cases h with
  | pgMessagePersist ha' =>
    cases ha.symm.trans ha'
    simp
  | pgMessagePersistFault ha' hd' => exact absurd hd' hd
  | goto ha' | index ha' | indexFault ha' | qpidSendMessage ha' | await ha' =>
    cases ha.symm.trans ha'

/-! ### The invariant -/

/-- `calls` are the calls of `pgMessagePersist` by the callback of `r` whose transactions have
ended, and `done` the messages for which they were made. -/
structure Persisted (p : Program) (r : RecvId) (ended : Bool) (calls : List (String × String))
    (done : List Message) : Prop where
  calls : calls = done.map fun m => (m.content, (p.recv r).mExchange)
  fetched : done <+: (p.recv r).fetched
  other : ¬ p.Persisting r → done = []
  loop : p.Persisting r → (p.recv r).pc.left = false → done = p.persisted r ended
  processed : p.Persisting r → (p.recv r).processed <+: done
  /-- A call whose transaction has ended has not returned, unless by an exception. -/
  pending : ended = true → p.Persisting r ∧ ((p.recv r).pc.left = false →
    (p.recv r).pc.inCallback = true ∧ p.callback r ≠ .done)

/-- A worker in its callback has processed everything but the message it has in hand. -/
theorem Records.processed_callback {R : Receiver} {L : Ledger Message} (h : Records R L)
    {m : Message} (hm : R.pc = .callback m) : R.processed ++ [m] = R.fetched := by
  have hpc := h.pc
  rw [hm] at hpc
  obtain ⟨l, hfetched, -, hhandled, -⟩ := hpc
  rw [h.processed, h.fetched, Ledger.handledList, hhandled, hfetched, List.take_left]

theorem Records.nil_of_unborn {R : Receiver} {L : Ledger Message} (h : Records R L)
    (hpc : R.pc = .unborn) : R.fetched = [] ∧ R.processed = [] := by
  obtain rfl := h.empty_of_unborn hpc
  exact ⟨h.fetched, h.processed⟩

namespace Persisted

variable {ended : Bool} {calls : List (String × String)} {done : List Message}
  {L : Ledger Message}

theorem persisted_eq (hpc : (p.recv r).pc.inCallback = false) :
    p.persisted r ended = (p.recv r).processed := by
  unfold Program.persisted
  split
  · rename_i hm
    rw [hm] at hpc
    cases hpc
  · rfl

theorem persisted_eq_of_callback {m : Message} (hpc : (p.recv r).pc = .callback m) :
    p.persisted r ended = if ended ∨ p.callback r = .done then (p.recv r).processed ++ [m]
      else (p.recv r).processed := by
  simp only [Program.persisted, hpc]

/-- Outside of its callback, and at the end of it, a worker is in no call. -/
theorem ended_eq_false (h : Persisted p r ended calls done) (hleft : (p.recv r).pc.left = false)
    (hout : (p.recv r).pc.inCallback = true → p.callback r = .done) : ended = false := by
  refine eq_false_of_ne_true fun he => ?_
  obtain ⟨hin, hplace⟩ := (h.pending he).2 hleft
  exact hplace (hout hin)

/-- A step of the worker. -/
theorem work {a : WorkerAct} (h : Persisted p r ended calls done)
    (hstarted : p'.startedBy r = p.startedBy r) (hw : WorkStep (p.recv r) a (p'.recv r))
    (hreturn : a = .callbackReturn → p.callback r = .done)
    (hinvoke : a = .invoke → p'.callback r = .start) : Persisted p' r ended calls done := by
  have hiff : p'.Persisting r ↔ p.Persisting r := by rw [Program.Persisting, hstarted]; rfl
  have hcalls : calls = done.map fun m => (m.content, (p'.recv r).mExchange) := by
    rw [hw.keeps.1]
    exact h.calls
  have hother : ¬ p'.Persisting r → done = [] := fun hp => h.other fun hp' => hp (hiff.2 hp')
  generalize hR : p'.recv r = R at hw hcalls
  -- the worker is outside of its callback, and nothing is processed
  have hquiet : R.fetched = (p.recv r).fetched → R.processed = (p.recv r).processed →
      R.pc.inCallback = false → ((p.recv r).pc.inCallback = true → R.pc.left = true) →
      ((p.recv r).pc.left = true → R.pc.left = true) → Persisted p' r ended calls done := by
    intro hfetched hprocessed hout hin hleft
    have hloop₀ (hloop : R.pc.left = false) : (p.recv r).pc.left = false :=
      eq_false_of_ne_true fun hl => by simp [hleft hl] at hloop
    have hout₀ (hloop : R.pc.left = false) : (p.recv r).pc.inCallback = false :=
      eq_false_of_ne_true fun hi => by simp [hin hi] at hloop
    refine ⟨hR ▸ hcalls, by rw [hR, hfetched]; exact h.fetched, hother, fun hp hloop => ?_,
      fun hp => by rw [hR, hprocessed]; exact h.processed (hiff.1 hp), fun he => ?_⟩
    · rw [hR] at hloop
      rw [persisted_eq (hR ▸ hout), hR, hprocessed, ← persisted_eq (hout₀ hloop)]
      exact h.loop (hiff.1 hp) (hloop₀ hloop)
    · obtain ⟨hp, hcallback⟩ := h.pending he
      refine ⟨hiff.2 hp, fun hloop => ?_⟩
      rw [hR] at hloop
      have hin₀ := (hcallback (hloop₀ hloop)).1
      simp [hout₀ hloop] at hin₀
  cases hw with
  | @fetch m hpc =>
    obtain rfl := h.ended_eq_false (by rw [hpc]; rfl) (by simp [hpc, WorkerPc.inCallback])
    refine ⟨hR ▸ hcalls, ?_, hother, fun hp _ => ?_, fun hp => ?_, by simp⟩
    · rw [hR]
      exact h.fetched.trans (List.prefix_append _ _)
    · rw [persisted_eq (by rw [hR]; rfl), hR]
      exact (h.loop (hiff.1 hp) (by rw [hpc]; rfl)).trans (persisted_eq (by rw [hpc]; rfl))
    · rw [hR]
      exact h.processed (hiff.1 hp)
  | @invoke m hpc =>
    obtain rfl := h.ended_eq_false (by rw [hpc]; rfl) (by simp [hpc, WorkerPc.inCallback])
    refine ⟨hR ▸ hcalls, by rw [hR]; exact h.fetched, hother, fun hp _ => ?_, fun hp => ?_,
      by simp⟩
    · rw [persisted_eq_of_callback (m := m) (by rw [hR]), if_neg (by simp [hinvoke rfl]), hR]
      exact (h.loop (hiff.1 hp) (by rw [hpc]; rfl)).trans (persisted_eq (by rw [hpc]; rfl))
    · rw [hR]
      exact h.processed (hiff.1 hp)
  | @callbackReturn m hpc =>
    obtain rfl := h.ended_eq_false (by rw [hpc]; rfl) fun _ => hreturn rfl
    have hdone : p.Persisting r → done = (p.recv r).processed ++ [m] := by
      intro hp
      rw [h.loop hp (by rw [hpc]; rfl), persisted_eq_of_callback hpc, if_pos (Or.inr (hreturn rfl))]
    refine ⟨hR ▸ hcalls, by rw [hR]; exact h.fetched, hother, fun hp _ => ?_, fun hp => ?_,
      by simp⟩
    · rw [persisted_eq (by rw [hR]; rfl), hR]
      exact hdone (hiff.1 hp)
    · rw [hR, hdone (hiff.1 hp)]
  | testActive hpc | testInactive hpc | fetchThrow hpc | lock hpc | callThrow hpc
  | callbackThrow hpc | unlock hpc | acknowledge hpc | acknowledgeApplied hpc
  | acknowledgeThrow hpc | isOpen hpc | isNotOpen hpc | isOpenThrow hpc | close hpc
  | closeThrow hpc =>
    exact hquiet rfl rfl rfl (by rw [hpc]; simp [WorkerPc.inCallback, WorkerPc.left])
      (by rw [hpc]; simp [WorkerPc.left])

/-- A step in which no `pgMessagePersist` returns to the callback. -/
theorem quiet (h : Persisted p r ended calls done) (hL : Records (p.recv r) L)
    (hm : QuietMove p p' r) : Persisted p' r ended calls done := by
  cases hm with
  | unborn hpc hpc' hfetched hprocessed =>
    obtain rfl := h.ended_eq_false (by rw [hpc]; rfl) (by simp [hpc, WorkerPc.inCallback])
    obtain ⟨hf, hp⟩ := hL.nil_of_unborn hpc
    have hdone : done = [] := List.prefix_nil.1 (hf ▸ h.fetched)
    have hnil : (p'.recv r).processed = [] := hprocessed.trans hp
    subst hdone
    refine ⟨h.calls, List.nil_prefix, fun _ => rfl, fun _ _ => ?_, fun _ => ?_, by simp⟩
    · rw [persisted_eq hpc', hnil]
    · rw [hnil]
  | same hstarted hpc hfetched hprocessed hexchange hplace =>
    have hiff : p'.Persisting r ↔ p.Persisting r := by rw [Program.Persisting, hstarted]; rfl
    refine ⟨by rw [hexchange]; exact h.calls, hfetched ▸ h.fetched,
      fun hp => h.other fun hp' => hp (hiff.2 hp'), fun hp hloop => ?_,
      fun hp => hprocessed ▸ h.processed (hiff.1 hp), fun he => ?_⟩
    · rw [hpc] at hloop
      rw [h.loop (hiff.1 hp) hloop]
      simp only [Program.persisted, hpc, hprocessed, hplace (hiff.1 hp)]
    · obtain ⟨hp, hcallback⟩ := h.pending he
      rw [hpc, Ne, hplace hp]
      exact ⟨hiff.2 hp, hcallback⟩
  | work hstarted hw hreturn hinvoke => exact h.work hstarted hw hreturn hinvoke

/-- The transaction of the present call ends. -/
theorem ends {m : Message} (h : Persisted p r false calls done) (hL : Records (p.recv r) L)
    (hpc : (p.recv r).pc = .callback m) (hp : p.Persisting r) (hplace : p.callback r ≠ .done) :
    Persisted p r true (calls ++ [(m.content, (p.recv r).mExchange)]) (done ++ [m]) := by
  have hdone : done = (p.recv r).processed := by
    rw [h.loop hp (by rw [hpc]; rfl), persisted_eq_of_callback hpc, if_neg (by simp [hplace])]
  refine ⟨?_, ?_, fun hno => absurd hp hno, fun _ _ => ?_, fun _ => ?_, fun _ => ⟨hp, fun _ => ?_⟩⟩
  · rw [List.map_append, ← h.calls]
    rfl
  · rw [hdone, hL.processed_callback hpc]
  · rw [persisted_eq_of_callback hpc, if_pos (Or.inl rfl), hdone]
  · rw [hdone]
    exact List.prefix_append _ _
  · exact ⟨by rw [hpc]; rfl, hplace⟩

/-- A step in which `pgMessagePersist` returns to the callback. -/
theorem returned {m : Message} (h : Persisted p r true calls done)
    (hpc : (p.recv r).pc = .callback m) (hrecv : p'.recv r = p.recv r)
    (hstarted : p'.startedBy r = p.startedBy r) (hplace : p'.callback r = .done) :
    Persisted p' r false calls done := by
  have hiff : p'.Persisting r ↔ p.Persisting r := by rw [Program.Persisting, hstarted]; rfl
  refine ⟨hrecv ▸ h.calls, hrecv ▸ h.fetched, fun hno => h.other fun hp => hno (hiff.2 hp),
    fun hp hloop => ?_, fun hp => hrecv ▸ h.processed (hiff.1 hp), by simp⟩
  rw [h.loop (hiff.1 hp) (hrecv ▸ hloop), persisted_eq_of_callback hpc, if_pos (Or.inl rfl),
    persisted_eq_of_callback (hrecv ▸ hpc), if_pos (Or.inr hplace), hrecv]

end Persisted

end Step

/-! ### Runs -/

/-- The calls of `pgMessagePersist` in the callback of `r` are accounted for. -/
def Archive.Accounts (s : Archive) (r : RecvId) : Prop :=
  ∃ done, Persisted s.terminal.program r (s.ended (.callback r)).isSome (s.made (.callback r)) done

section Run

variable {parse : AddressParser} {E : Pg.Environment} {D : Pg.Dialect} {text : List Char}
  {c : Pg.Connection} {s s' : Archive} {l : ArchiveLabel} {r : RecvId}

/-- The program with its database runs as the program does. -/
theorem program_of_archive {C : Archive → ArchiveLabel → Prop}
    (h : (archive parse E).ReachableWhere C (.start text c) s) :
    (program parse).Reachable {} s.terminal.program :=
  (terminal_maps parse).reachable ((archive_maps parse E).reachable h)

theorem program_step_of_terminal {t t' : Terminal} {l : ProgramLabel}
    (h : (terminal parse).step t l = some t') : ProgramStep parse t.program l t'.program := by
  have hst : (program parse).step t.program l = some t'.program := terminal_maps parse t l t' h
  exact (program_step_cases hst).2

/-- A step adds the call whose transaction ends in it. -/
theorem Archive.Accounts.step (h : s.Accounts r) (hborn : Born s.terminal.program.messaging)
    {L : Ledger Message} (hL : Records (s.terminal.program.recv r) L)
    (hst : ArchiveStep parse D s l s') : s'.Accounts r := by
  obtain ⟨done, hdone⟩ := h
  cases hst with
  | quiet _ ht hnone =>
    exact ⟨done, hdone.quiet hL
      ((program_step_of_terminal ht).quiet_move hborn (by simp [hnone]))⟩
  | @callback q t hended hcalling ht =>
    have hstep := program_step_of_terminal ht
    rw [Archive.Accounts, Archive.goto_terminal, Archive.goto_ended, Archive.goto_made,
      Archive.finish_made]
    by_cases hq : q = r
    · subst hq
      obtain ⟨hrecv, hstarted, hplace⟩ := hstep.of_returns hcalling
      obtain ⟨⟨message, exchange⟩, hcalling⟩ := Option.ne_none_iff_exists'.1 hcalling
      obtain ⟨m, hpc, -⟩ := Program.calling_cases hcalling
      rw [Archive.finish_ended_self]
      rw [Option.isSome_iff_ne_none.2 hended] at hdone
      exact ⟨done, hdone.returned hpc hrecv hstarted hplace⟩
    · have hreturns : s.terminal.program.returns (.callback q) ≠ some r := by
        intro he
        cases (Program.returns_cases he).1
        exact hq rfl
      rw [Archive.finish_ended_of_ne (by simpa using Ne.symm hq)]
      exact ⟨done, hdone.quiet hL (hstep.quiet_move hborn hreturns)⟩
  | @ends k message exchange s' hended hcalling hp =>
    obtain ⟨status, hended', -⟩ := hp.exists_call
    rw [Archive.Accounts, hp.terminal, hp.made, hended']
    by_cases hk : k = .callback r
    · subst hk
      obtain ⟨m, hpc, rfl, rfl, hpersisting, hplace⟩ := Program.calling_persisting hcalling
      rw [hended] at hdone
      rw [if_pos rfl, Function.update_self]
      exact ⟨_, hdone.ends hL hpc hpersisting hplace⟩
    · rw [if_neg hk, List.append_nil, Function.update_of_ne (Ne.symm hk)]
      exact ⟨done, hdone⟩
  | returns =>
    rw [Archive.Accounts, Archive.finish_ended_of_ne (by simp)]
    exact ⟨done, hdone⟩

theorem records_of_program {C : Program → ProgramLabel → Prop} {p : Program}
    (h : (program parse).ReachableWhere C {} p) (r : RecvId) : ∃ L, Records (p.recv r) L :=
  records_of_reachable (solo_reachable h) r

theorem accounts_of_reachable {C : Archive → ArchiveLabel → Prop}
    (h : (archive parse E).ReachableWhere C (.start text c) s) (r : RecvId) : s.Accounts r := by
  refine h.invariant_of
    (I := fun s => Born s.terminal.program.messaging ∧
      ∃ L, Records (s.terminal.program.recv r) L)
    (J := fun s => s.Accounts r)
    (fun s hs => ⟨born_of_program (program_of_archive hs),
      records_of_program (program_of_archive hs) r⟩) ?_ ?_
  · refine ⟨[], rfl, List.nil_prefix, fun _ => rfl, ?_, ?_, by simp [Archive.start]⟩ <;>
    · rintro ⟨_, h⟩
      cases h
  · rintro s l s' ⟨hborn, L, hL⟩ hs - hst
    exact hs.step hborn hL (archive_step_cases hst)

end Run

/-- **What is persisted is what was typed and what was received.**  In every run of the program,
with any text, any faults of the database and of the broker, and any interleaving:

* the handlers of `cm_pgclient.cpp` have called `pgMessagePersist` for the items entered, in their
  order, but for the calls of the present handler whose transactions have still to end;
* the callback of a receiver has called it only if it is `receiveAndPersistCallback`, and then for
  the first messages fetched, in their order, each once and with the exchange of the receiver,
  among them all those that are processed or acknowledged;
* no two callbacks are in a call at once;
* what the calls of one caller have returned is what their transactions have ended with, and at most
  one of them has still to return;
* the rows added to `Messages` are those of the calls whose transactions have ended with
  `PG_SUCCESS`, in the order in which they have ended. -/
theorem archive_exact (parse : AddressParser) (E : Pg.Environment) (text : List Char)
    (c : Pg.Connection) {s : Archive} (h : (archive parse E).Reachable (.start text c) s) :
    s.made .handler ++ s.handler = s.terminal.entered.flatMap Entry.persists ∧
    (∀ r, ∃ done, done <+: (s.terminal.program.recv r).fetched ∧
      s.made (.callback r) =
        done.map (fun m => (m.content, (s.terminal.program.recv r).mExchange)) ∧
      (¬ s.terminal.program.Persisting r → done = []) ∧
      (s.terminal.program.Persisting r → (s.terminal.program.recv r).processed <+: done ∧
        (s.terminal.program.recv r).acked <+: done)) ∧
    (∀ r q, (s.terminal.program.recv r).pc.inCallback = true →
      (s.terminal.program.recv q).pc.inCallback = true → r = q) ∧
    (∀ k, (s.calls k).map Pg.PersistCall.status = s.returned k ++ (s.ended k).toList) ∧
    c.committed.ExtendsTo E.dialect (s.log.map Prod.snd) s.connection.committed := by
  have hprogram := program_of_archive h
  refine ⟨typed_of_reachable h, fun r => ?_, fun r q hr hq => ?_, statuses_of_reachable h,
    stored_of_reachable h⟩
  · obtain ⟨done, hdone⟩ := accounts_of_reachable h r
    obtain ⟨L, hL⟩ := records_of_program hprogram r
    refine ⟨done, hdone.fetched, hdone.calls, hdone.other, fun hp => ?_⟩
    have hacked : (s.terminal.program.recv r).acked <+: (s.terminal.program.recv r).processed := by
      rw [hL.acked, hL.processed]
      exact L.acked_prefix
    exact ⟨hdone.processed hp, hacked.trans (hdone.processed hp)⟩
  · exact callback_unique (solo_reachable hprogram) hr hq

/-- **Queries see all of it.**  From an empty table on, in every state that the program reaches, a
query that the database serves returns what was persisted for its exchange by the calls whose
transactions have ended with `PG_SUCCESS`, whether it was typed or received, and whether or not its
call has returned. -/
theorem archive_roundTrip (parse : AddressParser) (E : Pg.Environment) (text : List Char)
    (c : Pg.Connection) (hempty : c.committed.messages = [])
    (hserial : ∀ x ∈ c.committed.exchanges, 1 ≤ x.id) {s : Archive}
    (h : (archive parse E).Reachable (.start text c) s) :
    Pg.RoundTrip E.dialect.stores E.dialect s.connection.committed (s.log.map Prod.snd) := by
  have hstored : c.committed.ExtendsTo E.dialect (s.log.map Prod.snd) s.connection.committed :=
    stored_of_reachable h
  exact Pg.roundTrip_of_stored (hstored.stored hempty) (hstored.1 ▸ hserial)

/-! ### A message that is lost -/

/-- The standard dialect, with a database that cannot be reached at first. -/
def unreachable : Pg.Environment :=
  ⟨.standard, fun n => if n = 0 then some "connection refused" else none, fun _ => "now"⟩

/-- A receiver that persists gets a message, and the transaction of its call ends. -/
def persistLabels : List ArchiveLabel :=
  (ProgramLabel.read ['0'] :: successLabels (.receiveMessagesAndPersist "exchange") ++
    [requestLabel] ++ (answerLabels 0 0).dropLast).map .terminal ++ [.ends (.callback 0)]

/-- Its call returns, and the message is acknowledged. -/
def persistedLabels : List ArchiveLabel :=
  (ProgramLabel.callback 0 :: libraryLabels [.work 0 .callbackReturn, .work 0 .unlock,
    .work 0 .acknowledge]).map .terminal

/-- The database cannot be reached, and the message is acknowledged nevertheless. -/
theorem archive_exact_lost :
    ∃ s, (archive plainName unreachable).run (.start "0 5 exchange\n".toList Pg.emptyConnection)
        (persistLabels ++ persistedLabels) = some s ∧
      (s.terminal.program.recv 0).acked = [⟨"request", ⟨"answers"⟩⟩] ∧
      s.log = [(.callback 0, ⟨"request", "exchange", .pgError⟩)] ∧
      s.returned (.callback 0) = [.pgError] ∧ s.connection.committed.messages = [] := by
  have hrun : ∃ s, (archive plainName unreachable).run
      (.start "0 5 exchange\n".toList Pg.emptyConnection)
      (persistLabels ++ persistedLabels) = some s ∧
    (s.terminal.program.recv 0).acked = [⟨"request", ⟨"answers"⟩⟩] ∧
    s.log = [(.callback 0, ⟨"request", "exchange", .pgError⟩)] ∧
    s.ended (.callback 0) = none := ⟨_, rfl, rfl, rfl, rfl⟩
  obtain ⟨s, hs, hacked, hlog, hended⟩ := hrun
  obtain ⟨-, -, -, hstatuses, -, rows, hmessages, hrows⟩ :=
    archive_exact plainName unreachable _ _ (Machine.reachable_of_run hs)
  rw [hlog] at hrows
  cases hrows
  refine ⟨s, hs, hacked, hlog, ?_, hmessages⟩
  have hreturned := hstatuses (.callback 0)
  rw [hended, Archive.calls, hlog, Option.toList_none, List.append_nil] at hreturned
  exact hreturned.symm

/-- The queries that are then served return nothing, also before the call has returned. -/
theorem archive_roundTrip_lost :
    ∃ s, (archive plainName unreachable).run
        (.start "0 5 exchange\n".toList Pg.emptyConnection) persistLabels = some s ∧
      s.ended (.callback 0) = some .pgError ∧
      Pg.RoundTrip Pg.Dialect.standard.stores .standard s.connection.committed
        [⟨"request", "exchange", .pgError⟩] := by
  have hrun : ∃ s, (archive plainName unreachable).run
      (.start "0 5 exchange\n".toList Pg.emptyConnection) persistLabels = some s ∧
    s.ended (.callback 0) = some .pgError ∧
    s.log.map Prod.snd = [⟨"request", "exchange", .pgError⟩] := ⟨_, rfl, rfl, rfl⟩
  obtain ⟨s, hs, hended, hlog⟩ := hrun
  have hround := archive_roundTrip plainName unreachable _ _ rfl (by simp [Pg.emptyConnection,
    Pg.Database.empty]) (Machine.reachable_of_run hs)
  exact ⟨s, hs, hended, hlog ▸ hround⟩

end Comyno
