import Comyno.Qpid.Solo
import Comyno.Test.Program

/-!
# What one step of the interactive program does

`ProgramStep` lists the steps of the machine `program`, one constructor for each program point of
the main thread and of the callbacks.  The library runs inside of the program (`program_maps`), and
in it the main thread is the only thread that executes operations, all of them on
`qpidMessagingClient` (`Solo`).

## Main results

* `program_step_cases` : the list is complete.
* `program_maps` : every run of the program is a run of the library and its broker.
* `solo_reachable` : the library is used by the main thread only, so its invariants hold.
-/

namespace Comyno

open Conc

namespace Program

variable (p : Program)

@[simp] theorem goto_brokered (r : RecvId) (pc : CallbackPc) :
    (p.goto r pc).brokered = p.brokered := rfl
@[simp] theorem goto_main (r : RecvId) (pc : CallbackPc) : (p.goto r pc).main = p.main := rfl
@[simp] theorem goto_exchangeReply (r : RecvId) (pc : CallbackPc) :
    (p.goto r pc).exchangeReply = p.exchangeReply := rfl
@[simp] theorem goto_startedBy (r : RecvId) (pc : CallbackPc) :
    (p.goto r pc).startedBy = p.startedBy := rfl
@[simp] theorem goto_before (r : RecvId) (pc : CallbackPc) : (p.goto r pc).before = p.before := rfl
@[simp] theorem goto_destroyed (r : RecvId) (pc : CallbackPc) :
    (p.goto r pc).destroyed = p.destroyed := rfl
@[simp] theorem goto_faulted (r : RecvId) (pc : CallbackPc) :
    (p.goto r pc).faulted = p.faulted := rfl

@[simp] theorem goto_callback (r q : RecvId) (pc : CallbackPc) :
    (p.goto r pc).callback q = if q = r then pc else p.callback q := Function.update_apply ..

/-- The label of the destructor of `qpidMessagingClient`. -/
def destructorLabel : BrokeredLabel := .step (.messaging (.call (.app client) (.destructor client)))

/-- The label of the send of a callback. -/
def sendLabel (r : RecvId) (text exchange : String) : BrokeredLabel :=
  .step (.send (.worker r) (.qpidSendMessage text exchange ""))

/-- The state after the step `l` of the library to `b`. -/
def afterLibrary (l : BrokeredLabel) (b : Brokered) : Program :=
  { p with brokered := b, callback := p.enter l, startedBy := p.recordStarted l }

@[simp] theorem afterLibrary_brokered (l : BrokeredLabel) (b : Brokered) :
    (p.afterLibrary l b).brokered = b := rfl
@[simp] theorem afterLibrary_main (l : BrokeredLabel) (b : Brokered) :
    (p.afterLibrary l b).main = p.main := rfl
@[simp] theorem afterLibrary_exchangeReply (l : BrokeredLabel) (b : Brokered) :
    (p.afterLibrary l b).exchangeReply = p.exchangeReply := rfl
@[simp] theorem afterLibrary_before (l : BrokeredLabel) (b : Brokered) :
    (p.afterLibrary l b).before = p.before := rfl
@[simp] theorem afterLibrary_callback (l : BrokeredLabel) (b : Brokered) :
    (p.afterLibrary l b).callback = p.enter l := rfl
@[simp] theorem afterLibrary_startedBy (l : BrokeredLabel) (b : Brokered) :
    (p.afterLibrary l b).startedBy = p.recordStarted l := rfl
@[simp] theorem afterLibrary_destroyed (l : BrokeredLabel) (b : Brokered) :
    (p.afterLibrary l b).destroyed = p.destroyed := rfl
@[simp] theorem afterLibrary_faulted (l : BrokeredLabel) (b : Brokered) :
    (p.afterLibrary l b).faulted = p.faulted := rfl

end Program

/-- The steps of the machine. -/
inductive ProgramStep (parse : AddressParser) (p : Program) : ProgramLabel → Program → Prop
  -- the menus
  | read {token : List Char} {pc : MainPc} : p.main.read token = some pc →
      ProgramStep parse p (.read token) { p with main := pc }
  | input {i : Item} : p.main = .handler i.index →
      ProgramStep parse p (.input i) { p with main := .commands i.commands }
  | finish : p.main = .commands [] → ProgramStep parse p .main { p with main := .items 0 }
  -- the commands
  | enter {c : Command} {todo : List Command} : p.main = .commands (c :: todo) →
      ProgramStep parse p .main { p with
        main := .call c todo
        exchangeReply := c.prologue p.exchangeReply
        before := p.exchangeReply }
  | call {c : Command} {todo : List Command} {b : Brokered} : p.main = .call c todo →
      (brokered parse).step p.brokered (.step c.label) = some b →
      ProgramStep parse p .main { p with main := .wait c todo, brokered := b }
  | returned {c : Command} {todo : List Command} {res : Result} : p.main = .wait c todo →
      c.result p.brokered.process = some res →
      ProgramStep parse p .main { p with main := c.epilogue todo res }
  | erase {exchange : String} {todo : List Command} : p.main = .erase exchange todo →
      ProgramStep parse p .main { p with
        main := .commands todo
        exchangeReply := p.exchangeReply.erase exchange }
  -- the static objects
  | destroy {X : StaticObject} {objs : List StaticObject} : p.main = .destroy (X :: objs) →
      X ≠ .qpidMessagingClient →
      ProgramStep parse p .main { p with main := .destroy objs, destroyed := X :: p.destroyed }
  | destructor {objs : List StaticObject} {b : Brokered} :
      p.main = .destroy (.qpidMessagingClient :: objs) →
      (brokered parse).step p.brokered Program.destructorLabel = some b →
      ProgramStep parse p .main { p with main := .destructor objs, brokered := b }
  | destroyed {objs : List StaticObject} : p.main = .destructor objs →
      p.messaging.frame (.app client) = .idle (some .destroyed) →
      ProgramStep parse p .main { p with
        main := .destroy objs
        destroyed := .qpidMessagingClient :: p.destroyed }
  -- the callbacks
  | goto {r : RecvId} {pc : CallbackPc} : p.act r = some (.goto pc) →
      ProgramStep parse p (.callback r) (p.goto r pc)
  | index {r : RecvId} {exchange : String} {pc : String → CallbackPc} :
      p.act r = some (.index exchange pc) → .exchangeReply ∉ p.destroyed →
      ProgramStep parse p (.callback r) { p.goto r (pc (p.exchangeReply.index exchange).2) with
        exchangeReply := (p.exchangeReply.index exchange).1 }
  | indexFault {r : RecvId} {exchange : String} {pc : String → CallbackPc} :
      p.act r = some (.index exchange pc) → .exchangeReply ∈ p.destroyed →
      ProgramStep parse p (.callback r) { p with faulted := some .exchangeReply }
  | qpidSendMessage {r : RecvId} {text exchange : String} {b : Brokered} :
      p.act r = some (.qpidSendMessage text exchange) →
      (brokered parse).step p.brokered (Program.sendLabel r text exchange) = some b →
      ProgramStep parse p (.callback r) { p.goto r .sending with brokered := b }
  | await {r : RecvId} {res : Result} : p.act r = some .await →
      (p.brokered.process.sender (.worker r)).returned = some res →
      ProgramStep parse p (.callback r) (p.goto r (if res = .threw then .unwinding else .done))
  | pgMessagePersist {r : RecvId} {pc : CallbackPc} : p.act r = some (.pgMessagePersist pc) →
      .postgresClient ∉ p.destroyed → ProgramStep parse p (.callback r) (p.goto r pc)
  | pgMessagePersistFault {r : RecvId} {pc : CallbackPc} :
      p.act r = some (.pgMessagePersist pc) → .postgresClient ∈ p.destroyed →
      ProgramStep parse p (.callback r) { p with faulted := some .postgresClient }
  -- the library
  | library {l : BrokeredLabel} {b : Brokered} : p.allows l = true →
      (brokered parse).step p.brokered l = some b →
      ProgramStep parse p (.library l) (p.afterLibrary l b)

/-- The menus that read a token, and where they lead. -/
theorem MainPc.read_cases {pc pc' : MainPc} {token : List Char} (h : pc.read token = some pc') :
    (pc = .modules ∨ ∃ m, pc = .items m) ∧
      (pc' = .destroy staticObjects.reverse ∨ pc' = .modules ∨ pc' = .terminated ∨
        (∃ m, pc' = .items m) ∨ ∃ idx, pc' = .handler idx) := by
  unfold MainPc.read at h
  split at h <;> cases h
  · refine ⟨Or.inl rfl, ?_⟩
    split <;> simp
  · refine ⟨Or.inr ⟨_, rfl⟩, ?_⟩
    split
    case h_3 => split <;> simp
    all_goals simp

section Step

variable {parse : AddressParser} {p p' : Program} {l : ProgramLabel}

theorem ProgramStep.of_main (h : p.stepMain parse = some p') : ProgramStep parse p .main p' := by
  unfold Program.stepMain at h
  split at h
  case h_1 hm => cases h; exact .finish hm
  case h_2 hm => cases h; exact .enter hm
  case h_3 hm =>
    obtain ⟨b, hb, rfl⟩ := Option.map_eq_some_iff.1 h
    exact .call hm hb
  case h_4 hm =>
    obtain ⟨res, hres, rfl⟩ := Option.map_eq_some_iff.1 h
    exact .returned hm hres
  case h_5 hm => cases h; exact .erase hm
  case h_6 hm =>
    obtain ⟨b, hb, rfl⟩ := Option.map_eq_some_iff.1 h
    exact .destructor hm hb
  case h_7 X objs hne hm =>
    cases h
    exact .destroy hm hne
  case h_8 hm =>
    split at h <;> cases h
    exact .destroyed hm ‹_›
  all_goals cases h

theorem ProgramStep.of_callback {r : RecvId} (h : p.stepCallback parse r = some p') :
    ProgramStep parse p (.callback r) p' := by
  unfold Program.stepCallback at h
  split at h
  case h_1 ha => cases h; exact .goto ha
  case h_2 ha =>
    cases h
    unfold Program.use
    split
    · exact .indexFault ha ‹_›
    · exact .index ha ‹_›
  case h_3 ha =>
    obtain ⟨b, hb, rfl⟩ := Option.map_eq_some_iff.1 h
    exact .qpidSendMessage ha hb
  case h_4 ha =>
    obtain ⟨res, hres, rfl⟩ := Option.map_eq_some_iff.1 h
    exact .await ha hres
  case h_5 ha =>
    cases h
    unfold Program.use
    split
    · exact .pgMessagePersistFault ha ‹_›
    · exact .pgMessagePersist ha ‹_›
  case h_6 => cases h

/-- **The list of steps is complete.** -/
theorem program_step_cases (h : (program parse).step p l = some p') :
    p.running = true ∧ ProgramStep parse p l p' := by
  change p.step parse l = some p' at h
  unfold Program.step at h
  split at h
  · refine ⟨‹_›, ?_⟩
    cases l with
    | read token =>
      obtain ⟨pc, hpc, rfl⟩ := Option.map_eq_some_iff.1 h
      exact .read hpc
    | input i =>
      simp only at h
      split at h
      · rename_i hm
        split at h <;> cases h
        exact .input (by rw [hm, ‹i.index = _›])
      · cases h
    | main => exact .of_main h
    | callback r => exact .of_callback h
    | library l =>
      simp only at h
      split at h
      · obtain ⟨b, hb, rfl⟩ := Option.map_eq_some_iff.1 h
        exact .library ‹_› hb
      · cases h
  · cases h

/-! ### The library inside of the program -/

/-- The label of the step of the library and its broker that a step of the program takes. -/
def ProgramLabel.label (p : Program) : ProgramLabel → Option BrokeredLabel
  | .library l => some l
  | .main => match p.main with
    | .call c _ => some (.step c.label)
    | .destroy (.qpidMessagingClient :: _) => some Program.destructorLabel
    | _ => none
  | .callback r => match p.act r with
    | some (.qpidSendMessage text exchange) => some (Program.sendLabel r text exchange)
    | _ => none
  | .read _ | .input _ => none

/-- **The library and its broker run inside of the program.** -/
theorem program_maps (parse : AddressParser) :
    Machine.Maps (program parse) (brokered parse) Program.brokered fun p l => l.label p := by
  intro p l p' h
  cases (program_step_cases h).2 with
  | call hm hb | destructor hm hb =>
    simp only [ProgramLabel.label, hm]
    exact hb
  | qpidSendMessage ha hb =>
    simp only [ProgramLabel.label, ha]
    exact hb
  | library _ hb => exact hb
  | finish hm | enter hm | returned hm | erase hm | destroyed hm =>
    simp only [ProgramLabel.label, hm]
  | @destroy X objs hm hX =>
    cases X with
    | qpidMessagingClient => exact absurd rfl hX
    | postgresClient | exchangeReply => simp only [ProgramLabel.label, hm]
  | goto ha | index ha | indexFault ha | await ha | pgMessagePersist ha
  | pgMessagePersistFault ha => simp only [ProgramLabel.label, ha, Program.goto_brokered]
  | read | input => rfl

/-- The label of the step of the library without sends. -/
def ProgramLabel.messaging (p : Program) (l : ProgramLabel) : Option Label :=
  (l.label p).bind (BrokeredLabel.messaging p.brokered)

theorem program_maps_messaging (parse : AddressParser) :
    Machine.Maps (program parse) qpid Program.messaging fun p l => l.messaging p :=
  (program_maps parse).comp (brokered_maps_messaging parse)

/-- A step of the library that the program does not take is no call of an operation. -/
theorem not_call_of_allows {b : BrokeredLabel} (h : p.allows b = true) (t : Thread)
    (c : Operation) : b.messaging p.brokered ≠ some (.call t c) := by
  intro hb
  unfold Program.allows at h
  split at h
  · cases h
  · cases h
  · cases hb
  · rename_i hcall _ _
    rcases BrokeredLabel.messaging_cases hb with rfl | ⟨_, _, _, -, hfetch⟩
    · exact hcall _ _ rfl
    · cases hfetch

/-- Only the main thread calls operations of the client. -/
theorem solo_of_step (h : (program parse).step p l = some p') {l' : Label}
    (hl : l.messaging p = some l') : Solo client p.messaging l' := by
  rintro t c rfl
  cases (program_step_cases h).2 with
  | @call cmd todo b hm hb =>
    simp only [ProgramLabel.messaging, ProgramLabel.label, hm, Option.bind_some,
      BrokeredLabel.messaging, BrokeredLabel.label] at hl
    cases cmd <;> cases hl <;> exact ⟨rfl, rfl⟩
  | destructor hm hb =>
    simp only [ProgramLabel.messaging, ProgramLabel.label, hm, Option.bind_some] at hl
    cases hl
    exact ⟨rfl, rfl⟩
  | library ha hb => exact absurd hl (not_call_of_allows ha t c)
  | qpidSendMessage ha | goto ha | index ha | indexFault ha | await ha | pgMessagePersist ha
  | pgMessagePersistFault ha =>
    simp only [ProgramLabel.messaging, ProgramLabel.label, ha] at hl
    cases hl
  | finish hm | enter hm | returned hm | erase hm | destroyed hm =>
    simp only [ProgramLabel.messaging, ProgramLabel.label, hm] at hl
    cases hl
  | @destroy X objs hm hX =>
    cases X with
    | qpidMessagingClient => exact absurd rfl hX
    | postgresClient | exchangeReply =>
      simp only [ProgramLabel.messaging, ProgramLabel.label, hm] at hl
      cases hl
  | read | input => cases hl

/-- **The library is used by the main thread only.** -/
theorem solo_reachable {C : Program → ProgramLabel → Prop}
    (h : (program parse).ReachableWhere C {} p) :
    qpid.ReachableWhere (Solo client) State.init p.messaging := by
  induction h with
  | refl => exact .refl _
  | tail _ hst ih =>
    obtain ⟨l, -, hst⟩ := hst
    rcases (program_maps_messaging parse).step_or_eq hst with heq | ⟨l', hl', hst'⟩
    · rw [heq]
      exact ih
    · exact ih.tail (solo_of_step hst hl') hst'

theorem born_of_program {C : Program → ProgramLabel → Prop}
    (h : (program parse).ReachableWhere C {} p) : Born p.messaging :=
  born_of_reachable ((solo_reachable h).mono fun _ _ _ => trivial)

end Step

end Comyno
