import Comyno.Test.Callback
import Comyno.Test.Commands

/-!
# The end of the program

When `main` returns, `exchangeReply`, `postgresClient` and `qpidMessagingClient` are destroyed, in
this order.  The destructor of `qpidMessagingClient` stops the workers of the receivers that are
still active; until then their callbacks run, and two of the callbacks use the other two objects.

## Main results

* `not_faulted_of_reachable` : no callback uses an object after its destruction, as long as `main`
  returns only when no worker can reach such a use (`Program.mayUse`).
* `use_after_destruction` : a run in which a callback does.
-/

namespace Comyno

open Conc

/-! ### The condition -/

namespace Command

/-- The callback passed by the command uses `exchangeReply` or `postgresClient`. -/
def serves : Command → Bool
  | .receiveMessagesAndReply _ _ | .receiveMessagesAndPersist _ => true
  | .send _ | .receiveMessages _ | .receiveStop _ => false

/-- It does so for the message `m`. -/
def uses (m : Message) : Command → Bool
  | .receiveMessagesAndReply _ _ =>
    m.replyTo.name ≠ "" ∧ m.content ≠ "Send me an invalid!"
  | .receiveMessagesAndPersist _ => true
  | .send _ | .receiveMessages _ | .receiveStop _ => false

/-- It does so for `m` from a program point on. -/
def usesFrom (m : Message) (c : Command) : CallbackPc → Bool
  | .start => c.uses m
  | .print | .argument | .persist | .persisting => true
  | .send _ | .sending | .done | .unwinding => false

end Command

namespace Program

variable (p : Program)

/-- The message that the worker of `r` has in hand leads to a use by the callback of `c`. -/
def pending (r : RecvId) (c : Command) : Bool :=
  match (p.recv r).pc with
  | .lock m | .call m => c.uses m
  | .callback m => c.usesFrom m (p.callback r)
  | _ => false

/-- The worker of `r` may still use `exchangeReply` or `postgresClient`: for the message it has in
hand, or for one that it may still fetch. -/
def mayUse (r : RecvId) : Bool :=
  match p.startedBy r with
  | some c => p.pending r c || (c.serves && (p.recv r).isOpen && (p.recv r).pc.inLoop)
  | none => false

/-- The step does not end `main` while a worker may use one of the objects. -/
def exitsQuietly : ProgramLabel → Bool
  | .read token => p.main.read token ≠ some (.destroy staticObjects.reverse) ∨
      ∀ r < p.messaging.next, p.mayUse r = false
  | .input _ | .main | .callback _ | .library _ => true

end Program

/-! ### After `main` has returned -/

/-- `main` has returned. -/
def MainPc.exited : MainPc → Bool
  | .destroy _ | .destructor _ => true
  | .modules | .items _ | .handler _ | .commands _ | .call _ _ | .wait _ _ | .erase _ _
  | .terminated => false

theorem MainPc.exited_of_read {pc pc' : MainPc} {token : List Char}
    (h : pc.read token = some pc') : pc.exited = false ∧
      (pc'.exited = true → pc' = .destroy staticObjects.reverse) := by
  obtain ⟨rfl | ⟨_, rfl⟩, rfl | rfl | rfl | ⟨_, rfl⟩ | ⟨_, rfl⟩⟩ := MainPc.read_cases h <;>
    simp [MainPc.exited]

/-- A step opens a connection, or takes a worker into its loop, only where a receiver is started. -/
theorem Step.open_and_loop {s s' : State} {l : Label} (h : Step s l s') {r : RecvId}
    (hno : ∀ t pc o e, s.frame t ≠ .start pc o e r) :
    ((s'.recv r).isOpen = true → (s.recv r).isOpen = true) ∧
      ((s'.recv r).pc.inLoop = true → (s.recv r).pc.inLoop = true) := by
  have hm := h.recv_move r
  generalize s'.recv r = R at hm
  cases hm with
  | opened hf | spawned hf => exact absurd hf (hno _ _ _ _)
  | lost | closed => exact ⟨by simp [Receiver.closeConnection], id⟩
  | work hw =>
    cases hw <;> simp_all [WorkerPc.inLoop, Receiver.sessionAcknowledge,
      Receiver.closeConnection, Receiver.closeConnectionThrow]
  | same | named | activated | deactivated | closeThrew | joined | destroyed | joinDestroyed =>
    exact ⟨id, id⟩

section Step

variable {parse : AddressParser} {p p' : Program} {l : ProgramLabel} {r : RecvId}

/-- After `main` has returned no receiver is started. -/
theorem Orderly.not_start (ho : Orderly p) (hs : Seated client p.messaging)
    (hexit : p.main.exited = true) (t : Thread) (pc : StartPc) (o : ObjId) (e : String)
    (r : RecvId) : p.messaging.frame t ≠ .start pc o e r := by
  intro hf
  obtain ⟨rfl, rfl, -⟩ := hs.builds_of_frame hf (by simp)
  obtain ⟨c, todo, hm, -⟩ := ho.exists_command hf
  rw [hm] at hexit
  cases hexit

/-- What the command of a receiver is does not change then. -/
theorem startedBy_of_exited (h : ProgramStep parse p l p') (ho : Orderly p)
    (hs : Seated client p.messaging) (hexit : p.main.exited = true) :
    p'.startedBy = p.startedBy := by
  cases h with
  | library => exact recordStarted_eq hs fun e r => ho.not_start hs hexit _ _ _ e r
  | _ => rfl

theorem open_and_loop_of_exited (h : ProgramStep parse p l p') (ho : Orderly p)
    (hs : Seated client p.messaging) (hexit : p.main.exited = true) (r : RecvId) :
    ((p'.recv r).isOpen = true → (p.recv r).isOpen = true) ∧
      ((p'.recv r).pc.inLoop = true → (p.recv r).pc.inLoop = true) := by
  by_cases hl : ∀ b, l ≠ .library b
  · rw [h.recv_eq hl]
    exact ⟨id, id⟩
  · push Not at hl
    obtain ⟨b, rfl⟩ := hl
    cases h with
    | @library _ q _ hb =>
      rcases (brokered_maps_messaging parse).step_cases hb with ⟨-, heq⟩ | ⟨l, -, hst⟩
      · have hm : q.process.messaging = p.messaging := heq
        rw [Program.recv, Program.messaging, Program.afterLibrary_brokered, hm]
        exact ⟨id, id⟩
      · exact (Comyno.step_cases hst).2.open_and_loop fun t pc o e =>
          ho.not_start hs hexit t pc o e r

/-- A callback that is done with the objects does not come back to them. -/
theorem usesFrom_of_acted (h : ProgramStep parse p (.callback r) p') {m : Message} {c : Command}
    (hm : (p.recv r).pc = .callback m) (hc : p.startedBy r = some c)
    (huses : c.usesFrom m (p'.callback r) = true) : c.usesFrom m (p.callback r) = true := by
  have hact : ∀ {a}, p.act r = some a →
      CallbackStep m.content (p.recv r).mExchange m.replyTo.name c (p.callback r) a := by
    intro a ha
    obtain ⟨c', hc', hstep⟩ := Program.act_cases_of_callback hm ha
    cases hc.symm.trans hc'
    exact hstep
  cases h with
  | goto ha =>
    have hstep := hact ha
    simp only [Program.goto_callback, if_true] at huses
    generalize p.callback r = place at hstep ⊢
    cases hstep with
    | reply hname hcontent => simp [Command.usesFrom, Command.uses, hname, hcontent]
    | toPersist => rfl
    | plain | unanswered | invalid => cases huses
  | index ha =>
    have hstep := hact ha
    generalize p.callback r = place at hstep ⊢
    cases hstep with
    | print | argument => rfl
  | pgMessagePersist ha =>
    have hstep := hact ha
    generalize p.callback r = place at hstep ⊢
    cases hstep with
    | persist | persisting => rfl
  | qpidSendMessage => simp [Command.usesFrom] at huses
  | await =>
    simp only [Program.goto_callback, if_true] at huses
    split at huses <;> cases huses
  | indexFault | pgMessagePersistFault => exact huses

theorem Command.serves_of_uses {m : Message} {c : Command} (h : c.uses m = true) :
    c.serves = true := by
  cases c with
  | receiveMessagesAndReply | receiveMessagesAndPersist => rfl
  | send | receiveMessages | receiveStop => cases h

theorem exists_inHand_of_pending {c : Command} (h : p.pending r c = true) :
    ∃ m, (p.recv r).pc.inHand = some m := by
  unfold Program.pending at h
  split at h
  · exact ⟨_, by rw [‹(p.recv r).pc = _›]; rfl⟩
  · exact ⟨_, by rw [‹(p.recv r).pc = _›]; rfl⟩
  · exact ⟨_, by rw [‹(p.recv r).pc = _›]; rfl⟩
  · cases h

/-- A message in hand that leads to a use did so before, or was fetched by the step. -/
theorem pending_of_step (h : ProgramStep parse p l p') (hborn : Born p.messaging) {c : Command}
    (hc : p.startedBy r = some c) (hpending : p'.pending r c = true) :
    p.pending r c = true ∨
      c.serves = true ∧ (p.recv r).isOpen = true ∧ (p.recv r).pc.inLoop = true := by
  unfold Program.pending at hpending ⊢
  have hmove := h.worker_move hborn r
  cases hmove with
  | same _ hpc hcallback =>
    rw [hpc, hcallback] at hpending
    exact Or.inl hpending
  | acted hpc =>
    rw [hpc] at hpending
    cases hm : (p.recv r).pc with
    | callback m =>
      rw [hm] at hpending
      exact Or.inl (usesFrom_of_acted h hm hc hpending)
    | _ =>
      rw [hm] at hpending
      exact Or.inl hpending
  | fetched _ hopen hpc hpc' =>
    rw [hpc'] at hpending
    exact Or.inr ⟨Command.serves_of_uses hpending, hopen, by rw [hpc]; rfl⟩
  | locked _ hpc hpc' =>
    rw [hpc'] at hpending
    rw [hpc]
    exact Or.inl hpending
  | invoked _ hpc hpc' hstart =>
    rw [hpc', hstart] at hpending
    rw [hpc]
    exact Or.inl hpending
  | free _ hfree =>
    obtain ⟨m, hm⟩ := exists_inHand_of_pending hpending
    rw [hfree] at hm
    cases hm

/-- **After `main` has returned**, a worker that cannot use the objects never will. -/
theorem mayUse_step (h : ProgramStep parse p l p') (ho : Orderly p) (hs : Seated client p.messaging)
    (hborn : Born p.messaging) (hexit : p.main.exited = true) (hr : p.mayUse r = false) :
    p'.mayUse r = false := by
  obtain ⟨hopen, hloop⟩ := open_and_loop_of_exited h ho hs hexit r
  unfold Program.mayUse at hr ⊢
  rw [startedBy_of_exited h ho hs hexit]
  cases hc : p.startedBy r with
  | none => rfl
  | some c =>
    rw [hc] at hr
    simp only [Bool.or_eq_false_iff] at hr ⊢
    refine ⟨?_, ?_⟩
    · by_contra hpending
      rcases pending_of_step h hborn hc (by simpa using hpending) with hold | ⟨hserves, ho, hl⟩
      · rw [hr.1] at hold
        cases hold
      · simp [hserves, ho, hl] at hr
    · by_contra hmay
      simp only [Bool.not_eq_false, Bool.and_eq_true] at hmay
      simp [hmay.1.1, hopen hmay.1.2, hloop hmay.2] at hr

/-- A receiver that was not constructed has no worker. -/
theorem mayUse_of_fresh (h : p.recv r = {}) : p.mayUse r = false := by
  unfold Program.mayUse Program.pending
  rw [h]
  cases p.startedBy r with
  | none => rfl
  | some c => simp [WorkerPc.inLoop]

/-- A callback that uses one of the objects may do so. -/
theorem mayUse_of_index {exchange : String} {pc : String → CallbackPc}
    (ha : p.act r = some (.index exchange pc)) : p.mayUse r = true := by
  obtain ⟨m, c, hm, hc, hstep⟩ := Program.act_cases ha
  unfold Program.mayUse Program.pending
  rw [hc, hm]
  generalize p.callback r = place at hstep ⊢
  cases hstep with
  | print | argument => rfl

theorem mayUse_of_pgMessagePersist {pc : CallbackPc}
    (ha : p.act r = some (.pgMessagePersist pc)) : p.mayUse r = true := by
  obtain ⟨m, c, hm, hc, hstep⟩ := Program.act_cases ha
  unfold Program.mayUse Program.pending
  rw [hc, hm]
  generalize p.callback r = place at hstep ⊢
  cases hstep with
  | persist | persisting => rfl

/-! ### The invariant -/

/-- Nothing is destroyed before `main` has returned, and nothing that was destroyed is used. -/
structure Intact (p : Program) : Prop where
  before : p.main.exited = false → p.destroyed = []
  after : p.main.exited = true → ∀ r, p.mayUse r = false
  faulted : p.faulted = none

namespace Intact

theorem init : Intact {} where
  before _ := rfl
  after h := by cases h
  faulted := rfl

/-- What may be used has not been destroyed. -/
theorem not_destroyed (hi : Intact p) (hr : p.mayUse r = true) : p.destroyed = [] := by
  apply hi.before
  by_contra hexit
  have := hi.after (by simpa using hexit) r
  rw [hr] at this
  cases this

theorem before_step (hi : Intact p) (h : ProgramStep parse p l p') :
    p'.main.exited = false → p'.destroyed = [] := by
  intro hexit
  cases h with
  | read hr => exact hi.before (MainPc.exited_of_read hr).1
  | input hm | finish hm | enter hm | call hm | returned hm | erase hm =>
    exact hi.before (by rw [hm]; rfl)
  | destroy | destructor | destroyed => cases hexit
  | goto | index | indexFault | qpidSendMessage | await | pgMessagePersist | pgMessagePersistFault
  | library => exact hi.before hexit

/-- `main` has returned before the step, or returns by it. -/
theorem exited_cases (h : ProgramStep parse p l p') (hexit : p'.main.exited = true) :
    p.main.exited = true ∨ ∃ token, l = .read token ∧
      p.main.read token = some (.destroy staticObjects.reverse) ∧
      p' = { p with main := p'.main } := by
  cases h with
  | read hr =>
    have := (MainPc.exited_of_read hr).2 hexit
    subst this
    exact Or.inr ⟨_, rfl, hr, rfl⟩
  | destroy hm | destructor hm | destroyed hm => exact Or.inl (by rw [hm]; rfl)
  | input | finish | enter | call | erase => cases hexit
  | @returned c todo res =>
    unfold Command.epilogue at hexit
    simp only at hexit
    split at hexit <;> cases hexit
  | goto | index | indexFault | qpidSendMessage | await | pgMessagePersist | pgMessagePersistFault
  | library => exact Or.inl hexit

theorem after_step (hi : Intact p) (ho : Orderly p) (hs : Seated client p.messaging)
    (hlife : Life p.messaging) (hborn : Born p.messaging) (hquiet : p.exitsQuietly l = true)
    (h : ProgramStep parse p l p') : p'.main.exited = true → ∀ r, p'.mayUse r = false := by
  intro hexit r
  rcases exited_cases h hexit with hold | ⟨token, rfl, hread, heq⟩
  · exact mayUse_step h ho hs hborn hold (hi.after hold r)
  · have hall : ∀ r < p.messaging.next, p.mayUse r = false := by
      simpa [Program.exitsQuietly, hread] using hquiet
    rw [heq]
    show p.mayUse r = false
    rcases Nat.lt_or_ge r p.messaging.next with hlt | hge
    · exact hall r hlt
    · exact mayUse_of_fresh (hlife.fresh r hge)

theorem faulted_step (hi : Intact p) (h : ProgramStep parse p l p') : p'.faulted = none := by
  cases h with
  | indexFault ha hX =>
    rw [hi.not_destroyed (mayUse_of_index ha)] at hX
    cases hX
  | pgMessagePersistFault ha hX =>
    rw [hi.not_destroyed (mayUse_of_pgMessagePersist ha)] at hX
    cases hX
  | _ => exact hi.faulted

theorem step (hi : Intact p) (ho : Orderly p) (hs : Seated client p.messaging)
    (hlife : Life p.messaging) (hborn : Born p.messaging) (hquiet : p.exitsQuietly l = true)
    (h : ProgramStep parse p l p') : Intact p' where
  before := hi.before_step h
  after := hi.after_step ho hs hlife hborn hquiet h
  faulted := hi.faulted_step h

end Intact

theorem intact_of_reachable
    (h : (program parse).ReachableWhere (fun p l => p.exitsQuietly l = true) {} p) : Intact p :=
  h.invariant_of
    (I := fun p => Orderly p ∧ Seated client p.messaging ∧ Life p.messaging ∧ Born p.messaging)
    (fun _ hr => ⟨orderly_of_reachable hr, seated_of_reachable (solo_reachable hr),
      life_and_born_of_reachable (solo_reachable hr)⟩)
    Intact.init
    fun _ _ _ hI hi hquiet hst => hi.step hI.1 hI.2.1 hI.2.2.1 hI.2.2.2 hquiet
      (program_step_cases hst).2

/-- **No callback outlives what it uses**, as long as `main` returns only when no worker may reach
a use of `exchangeReply` or `postgresClient` anymore. -/
theorem not_faulted_of_reachable
    (h : (program parse).ReachableWhere (fun p l => p.exitsQuietly l = true) {} p) :
    (∀ r exchange pc, p.act r = some (.index exchange pc) → .exchangeReply ∉ p.destroyed) ∧
    (∀ r pc, p.act r = some (.pgMessagePersist pc) → .postgresClient ∉ p.destroyed) ∧
    p.faulted = none := by
  have hi := intact_of_reachable h
  refine ⟨fun r exchange pc ha => ?_, fun r pc ha => ?_, hi.faulted⟩
  · rw [hi.not_destroyed (mayUse_of_index ha)]
    exact List.not_mem_nil
  · rw [hi.not_destroyed (mayUse_of_pgMessagePersist ha)]
    exact List.not_mem_nil

end Step

/-! ### Runs -/

/-- The user leaves the module and the program. -/
def exitLabels : List ProgramLabel := [.read ['-', '1'], .read ['-', '1']]

/-- A receiver is started and stopped, and the program ends. -/
def quietLabels : List ProgramLabel :=
  [.read ['0']] ++ successLabels (.receiveMessagesAndReply "exchange" "reply") ++
    handlerLabels (.receiveStop "exchange")
      (List.replicate 5 (.exec (.app client) .ok) ++ .work 0 .test ::
        List.replicate 4 (.exec (.app client) .ok)) ++ [.main, .main, .main] ++
    exitLabels ++ [.main, .main, .main] ++
    libraryLabels (List.replicate 2 (.exec (.app client) .ok)) ++ [.main]

theorem not_faulted_quiet : ∃ p, (program plainName).run {} quietLabels = some p ∧
    p.destroyed = staticObjects ∧ p.faulted = none := by
  have hrun : ∃ p, (program plainName).run {} quietLabels = some p ∧
      p.destroyed = staticObjects := ⟨_, rfl, rfl⟩
  have hquiet : (program plainName).AllSteps (fun p l => p.exitsQuietly l = true) {}
      quietLabels := by decide +kernel
  obtain ⟨p, hp, hdestroyed⟩ := hrun
  exact ⟨p, hp, hdestroyed,
    (not_faulted_of_reachable (Machine.reachableWhere_of_run hp hquiet)).2.2⟩

/-- The program ends while the receiver of an item is active; `n` objects are destroyed, and then a
message arrives. -/
def activeLabels (i : Item) (n : ℕ) : List ProgramLabel :=
  [.read ['0']] ++ successLabels i ++ exitLabels ++ List.replicate n .main ++ [requestLabel] ++
    (answerLabels 0 0).dropLast

/-- **A callback outlives what it uses.**  `main` returns while a receiver is active; then
`receiveAndReplyCallback` uses `exchangeReply` and `receiveAndPersistCallback` uses
`postgresClient` after its destruction. -/
theorem use_after_destruction :
    (∃ p, (program plainName).run {}
        (activeLabels (.receiveMessagesAndReply "exchange" "reply") 1) = some p ∧
      p.destroyed = [.exchangeReply] ∧ p.faulted = some .exchangeReply) ∧
    ∃ p, (program plainName).run {}
        (activeLabels (.receiveMessagesAndPersist "exchange") 2) = some p ∧
      p.destroyed = [.postgresClient, .exchangeReply] ∧ p.faulted = some .postgresClient :=
  ⟨⟨_, rfl, rfl, rfl⟩, _, rfl, rfl, rfl⟩

end Comyno
