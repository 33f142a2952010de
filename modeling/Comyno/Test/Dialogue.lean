import Comyno.Conc.Sequential
import Comyno.Test.Terminal

/-!
# What the main thread reads

The worker threads decide when the main thread is where, but not what it does: its reads are those
of a sequential program (`Dialogue`), a function of the text alone, which the machine `terminal`
follows at some pace.  Everything about the input of the program can be proved of that function.

## Main definitions

* `Dialogue.advance` : the next read of the main thread.
* `MainPc.place` : where the main thread reads next, if it does not end before.

## Main results

* `terminal_follows` : at a terminal, the main thread reads what `Dialogue.advance` reads.
* `called_comparable` : two runs with the same text make the same calls of the client, as far as
  they get.
-/

namespace Comyno

open Conc Text

/-! ### The reads of the main thread -/

/-- The main thread, by what it reads. -/
structure Dialogue where
  pc : MainPc
  cin : Istream Char
  entered : List Entry

theorem readToken_entered (pc : MainPc) (cin : Istream Char) (entered : List Entry) :
    (readToken pc cin entered).2 = entered ∨
      ∃ i, (readToken pc cin entered).2 = entered ++ [.pg i] := by
  unfold readToken
  split
  · exact Or.inr ⟨_, rfl⟩
  · exact Or.inl rfl

namespace Dialogue

/-- The program is started with the text `text`. -/
def start (text : List Char) : Dialogue := ⟨.modules, ⟨text, false, false⟩, []⟩

variable (t : Dialogue)

/-- A menu reads. -/
def advanceMenu : Dialogue :=
  match t.pc.read (t.cin.word isSpace).1 with
  | some pc => ⟨pc, (readToken t.pc t.cin t.entered).1, (readToken t.pc t.cin t.entered).2⟩
  | none => t

/-- The next read; a dialogue that has ended stays as it is. -/
def advance : Dialogue :=
  match t.pc with
  | .handler idx =>
    match Item.input idx with
    | some reading => ⟨.items 0, (reading t.cin).2, t.entered ++ [.qpid (reading t.cin).1]⟩
    | none => t
  | _ => t.advanceMenu

/-- A menu that reads a token. -/
theorem advance_of_read {pc : MainPc} (h : t.pc.read (t.cin.word isSpace).1 = some pc) :
    t.advance = ⟨pc, (readToken t.pc t.cin t.entered).1, (readToken t.pc t.cin t.entered).2⟩ := by
  have hmenu : t.advance = t.advanceMenu := by
    unfold advance
    split
    · rename_i hidx
      rw [hidx] at h
      cases h
    · rfl
  rw [hmenu, advanceMenu, h]

/-- The items entered are never forgotten. -/
theorem grows_entered : Grows advance entered := by
  intro t
  unfold advance
  split
  · split
    · exact List.prefix_append _ _
    · exact List.prefix_refl _
  · unfold advanceMenu
    split
    · rcases readToken_entered t.pc t.cin t.entered with h | ⟨i, h⟩ <;> rw [h]
      exact List.prefix_append _ _
    · exact List.prefix_refl _

end Dialogue

namespace MainPc

/-- Where the main thread reads next, if it reads again. -/
def place : MainPc → MainPc
  | .modules => .modules
  | .items m => .items m
  | .handler idx => .handler idx
  | .commands _ | .call _ _ | .wait _ _ | .erase _ _ => .items 0
  | .destroy _ | .destructor _ => .destroy staticObjects.reverse
  | .terminated => .terminated

/-- `main` has returned. -/
def returned : MainPc → Bool
  | .destroy _ | .destructor _ => true
  | .modules | .items _ | .handler _ | .commands _ | .call _ _ | .wait _ _ | .erase _ _
  | .terminated => false

/-- In the loop of a menu. -/
def inMenu : MainPc → Bool
  | .modules | .items _ => true
  | .handler _ | .commands _ | .call _ _ | .wait _ _ | .erase _ _ | .destroy _ | .destructor _
  | .terminated => false

/-- The commands that the main thread has still to call. -/
def pending : MainPc → List Command
  | .commands todo | .wait _ todo | .erase _ todo => todo
  | .call c todo => c :: todo
  | .modules | .items _ | .handler _ | .destroy _ | .destructor _ | .terminated => []

variable {pc pc' : MainPc}

theorem place_of_read {token : List Char} (h : pc.read token = some pc') :
    pc.place = pc ∧ pc'.place = pc' := by
  obtain ⟨rfl | ⟨m, rfl⟩, rfl | rfl | rfl | ⟨m, rfl⟩ | ⟨idx, rfl⟩⟩ := read_cases h
  all_goals exact ⟨rfl, rfl⟩

end MainPc

/-- The main thread of `s` is where `t` is, and the same was read. -/
structure Terminal.Shows (s : Terminal) (t : Dialogue) : Prop where
  cin : s.cin = t.cin
  entered : s.entered = t.entered
  pc : s.program.main ≠ .terminated → t.pc = s.program.main.place

namespace Terminal.Shows

variable {s : Terminal} {t : Dialogue}

theorem start (text : List Char) : Shows (Terminal.start text) (.start text) :=
  ⟨rfl, rfl, fun _ => rfl⟩

/-- A step that reads nothing, after which the main thread has ended or has the same reads before
it. -/
theorem of_place (h : Shows s t) (hne : s.program.main ≠ .terminated) {p : Program}
    {called : List Command} (hplace : p.main = .terminated ∨ p.main.place = s.program.main.place) :
    Shows { s with program := p, called := called } t where
  cin := h.cin
  entered := h.entered
  pc hp := by
    rw [h.pc hne]
    exact (hplace.resolve_left hp).symm

end Terminal.Shows

variable {parse : AddressParser} {s s' : Terminal} {t : Dialogue} {l : ProgramLabel}

theorem MainPc.ne_terminated_of_running {p : Program} (h : p.running = true) :
    p.main ≠ .terminated := by
  intro hp
  simp [Program.running, hp, MainPc.ended] at h

/-- After a command the handler goes on, or an exception leaves `main`. -/
theorem epilogue_cases (c : Command) (todo : List Command) (res : Result) :
    c.epilogue todo res = .terminated ∨
      (c.epilogue todo res).place = .items 0 ∧ (c.epilogue todo res).pending = todo := by
  unfold Command.epilogue
  split
  · exact Or.inr ⟨rfl, rfl⟩
  · exact Or.inr ⟨rfl, rfl⟩
  · exact Or.inl rfl
  · exact Or.inl rfl

/-- Where the main thread is after a step outside of its reads. -/
theorem place_of_main {p p' : Program} (h : ProgramStep parse p .main p') :
    p'.main = .terminated ∨ p'.main.place = p.main.place := by
  cases h with
  | finish hm | enter hm | call hm | erase hm | destroy hm | destructor hm | destroyed hm =>
    exact Or.inr (by rw [hm]; rfl)
  | @returned c todo res hm =>
    rw [hm]
    exact (epilogue_cases c todo res).imp_right And.left

/-- The callbacks and the library leave the main thread where it is. -/
theorem main_of_callback {r : RecvId} {p p' : Program} (h : ProgramStep parse p (.callback r) p') :
    p'.main = p.main := by
  cases h <;> rfl

theorem main_of_library {l : BrokeredLabel} {p p' : Program}
    (h : ProgramStep parse p (.library l) p') : p'.main = p.main := by
  cases h
  rfl

/-- **At a terminal, the main thread reads what a sequential program reads.** -/
theorem terminal_follows (parse : AddressParser) {C : Terminal → ProgramLabel → Prop} :
    (terminal parse).Follows C Terminal.Shows Dialogue.advance := by
  intro s l s' t h _ hst
  obtain ⟨hrunning, hst⟩ := terminal_step_cases hst
  have hne := MainPc.ne_terminated_of_running hrunning
  have hpc := h.pc hne
  cases hst with
  | read hp =>
    cases hp with
    | @read _ pc hread =>
      right
      obtain ⟨hplace, hplace'⟩ := MainPc.place_of_read hread
      have hadvance : t.advance = ⟨pc, (readToken s.program.main s.cin s.entered).1,
          (readToken s.program.main s.cin s.entered).2⟩ := by
        have hread' : t.pc.read (t.cin.word isSpace).1 = some pc := by
          rw [hpc, hplace, ← h.cin, hread]
        rw [t.advance_of_read hread', hpc, hplace, ← h.cin, ← h.entered]
      rw [hadvance]
      exact ⟨rfl, rfl, fun _ => hplace'.symm⟩
  | @input reading _ hreading hp =>
    cases hp with
    | input hm =>
      right
      rw [hm] at hpc
      have hadvance : t.advance = ⟨.items 0, (reading s.cin).2,
          s.entered ++ [.qpid (reading s.cin).1]⟩ := by
        simp only [Dialogue.advance, hpc, MainPc.place, hreading, ← h.cin, ← h.entered]
      rw [hadvance]
      exact ⟨rfl, rfl, fun _ => rfl⟩
  | main hp => exact Or.inl (h.of_place hne (place_of_main hp))
  | callback hp =>
    exact Or.inl (h.of_place hne (Or.inr (congrArg MainPc.place (main_of_callback hp))))
  | library hp =>
    exact Or.inl (h.of_place hne (Or.inr (congrArg MainPc.place (main_of_library hp))))

/-! ### The calls of the main thread -/

/-- The commands of the items entered: those called, those that the main thread has still to call,
and those that an exception has cut off. -/
def Terminal.Issued (s : Terminal) : Prop :=
  ∃ lost, s.called ++ s.program.main.pending ++ lost = s.entered.flatMap Entry.commands ∧
    (s.program.main ≠ .terminated → lost = [])

/-- A step of the main thread outside of its reads calls the next command, or drops none unless an
exception leaves `main`. -/
theorem pending_of_main {p p' : Program} (h : ProgramStep parse p .main p') :
    ∃ lost, p.main.pending = p.main.atCall ++ p'.main.pending ++ lost ∧
      (p'.main ≠ .terminated → lost = []) := by
  cases h with
  | finish hm | enter hm | call hm | erase hm | destroy hm | destructor hm | destroyed hm =>
    exact ⟨[], by simp [hm, MainPc.pending, MainPc.atCall], fun _ => rfl⟩
  | @returned c todo res hm =>
    rcases epilogue_cases c todo res with hend | ⟨-, hpending⟩
    · exact ⟨todo, by simp [hm, MainPc.pending, MainPc.atCall, hend], fun hne => absurd hend hne⟩
    · refine ⟨[], ?_, fun _ => rfl⟩
      change p.main.pending = p.main.atCall ++ (c.epilogue todo res).pending ++ []
      rw [hm, hpending]
      simp [MainPc.pending, MainPc.atCall]

/-- What is pending when a token was read. -/
theorem MainPc.pending_of_read {pc pc' : MainPc} {token : List Char}
    (h : pc.read token = some pc') : pc.pending = [] ∧ pc'.pending = [] := by
  obtain ⟨rfl | ⟨m, rfl⟩, rfl | rfl | rfl | ⟨m, rfl⟩ | ⟨idx, rfl⟩⟩ := read_cases h
  all_goals exact ⟨rfl, rfl⟩

/-- The items of `cm_pgclient.cpp` do not call the client. -/
theorem commands_readToken {pc : MainPc} {cin : Istream Char} {entered : List Entry} :
    (readToken pc cin entered).2.flatMap Entry.commands = entered.flatMap Entry.commands := by
  rcases readToken_entered pc cin entered with h | ⟨i, h⟩
  · rw [h]
  · rw [h, List.flatMap_append]
    exact List.append_nil _

/-- The main thread calls the commands of the items it has entered, in their order. -/
theorem issued_of_step (h : s.Issued) (hst : (terminal parse).step s l = some s') : s'.Issued := by
  obtain ⟨lost, heq, hlost⟩ := h
  obtain ⟨hrunning, hst⟩ := terminal_step_cases hst
  obtain rfl := hlost (MainPc.ne_terminated_of_running hrunning)
  rw [List.append_nil] at heq
  cases hst with
  | read hp =>
    cases hp with
    | read hread =>
      obtain ⟨hpending, hpending'⟩ := MainPc.pending_of_read hread
      refine ⟨[], ?_, fun _ => rfl⟩
      rw [hpending, List.append_nil] at heq
      rw [Terminal.afterToken_entered, commands_readToken, Terminal.afterToken_called,
        Terminal.afterToken_program, hpending', List.append_nil, List.append_nil, heq]
  | input hreading hp =>
    cases hp with
    | input hm =>
      refine ⟨[], ?_, fun _ => rfl⟩
      rw [hm, MainPc.pending, List.append_nil] at heq
      simp only [MainPc.pending, List.append_nil, List.flatMap_append, ← heq]
      simp [Entry.commands]
  | main hp =>
    obtain ⟨lost, hpending, hlost⟩ := pending_of_main hp
    refine ⟨lost, ?_, hlost⟩
    rw [← heq, hpending]
    simp only [List.append_assoc]
  | callback hp => exact ⟨[], by rw [List.append_nil, main_of_callback hp, heq], fun _ => rfl⟩
  | library hp => exact ⟨[], by rw [List.append_nil, main_of_library hp, heq], fun _ => rfl⟩

section Run

variable {C C' : Terminal → ProgramLabel → Prop} {text : List Char}

theorem issued_reachable (h : (terminal parse).ReachableWhere C (.start text) s) : s.Issued :=
  h.invariant ⟨[], rfl, fun _ => rfl⟩ fun _ _ _ hi _ hst => issued_of_step hi hst

/-- What the main thread has called are commands of the items it has entered. -/
theorem called_of_entered (h : (terminal parse).ReachableWhere C (.start text) s) :
    s.called <+: s.entered.flatMap Entry.commands := by
  obtain ⟨lost, heq, -⟩ := issued_reachable h
  rw [← heq, List.append_assoc]
  exact List.prefix_append _ _

/-- The main thread is at some read of its dialogue. -/
theorem exists_shows (h : (terminal parse).ReachableWhere C (.start text) s) :
    ∃ n, s.Shows (Dialogue.advance^[n] (.start text)) :=
  (terminal_follows parse).exists_iterate (.start text) h

/-- More items have more commands. -/
theorem commands_of_entered {es es' : List Entry} (h : es <+: es') :
    es.flatMap Entry.commands <+: es'.flatMap Entry.commands := by
  obtain ⟨rest, rfl⟩ := h
  rw [List.flatMap_append]
  exact List.prefix_append _ _

end Run

/-- **The text alone decides what the main thread does.**  Two runs with the same standard input
enter the same items and make the same calls of the client, as far as they get, whatever the
workers, the broker and the connectors do in either of them. -/
theorem called_comparable (parse : AddressParser) (text : List Char) {s s' : Terminal}
    (h : (terminal parse).Reachable (.start text) s)
    (h' : (terminal parse).Reachable (.start text) s') :
    (s.entered <+: s'.entered ∨ s'.entered <+: s.entered) ∧
      (s.called <+: s'.called ∨ s'.called <+: s.called) := by
  have hentered : s.entered <+: s'.entered ∨ s'.entered <+: s.entered :=
    (terminal_follows parse).comparable Dialogue.grows_entered (fun _ _ hR => hR.entered)
      (.start text) h h'
  refine ⟨hentered, ?_⟩
  rcases hentered with hle | hle
  · exact List.prefix_or_prefix_of_prefix ((called_of_entered h).trans (commands_of_entered hle))
      (called_of_entered h')
  · exact List.prefix_or_prefix_of_prefix (called_of_entered h)
      ((called_of_entered h').trans (commands_of_entered hle))

/-- A text that enters the receivers of the examples. -/
def exampleText : List Char := "0 8 ".toList

/-- The main thread before its first call and after it. -/
theorem called_comparable_example : ∃ s s',
    (terminal plainName).run (.start exampleText) (itemLabels .receiveMessage4Times) = some s ∧
    (terminal plainName).run (.start exampleText)
      (itemLabels .receiveMessage4Times ++ [.main, .main]) = some s' ∧
    s'.called = [.receiveMessages "send-queue"] ∧
    (s.called <+: s'.called ∨ s'.called <+: s.called) := by
  have hbefore : ∃ s, (terminal plainName).run (.start exampleText)
      (itemLabels .receiveMessage4Times) = some s := ⟨_, rfl⟩
  have hafter : ∃ s, (terminal plainName).run (.start exampleText)
      (itemLabels .receiveMessage4Times ++ [.main, .main]) = some s ∧
      s.called = [.receiveMessages "send-queue"] := ⟨_, rfl, rfl⟩
  obtain ⟨s, hs⟩ := hbefore
  obtain ⟨s', hs', hcalled⟩ := hafter
  exact ⟨s, s', hs, hs', hcalled, (called_comparable plainName exampleText
    (Machine.reachable_of_run hs) (Machine.reachable_of_run hs')).2⟩

end Comyno
