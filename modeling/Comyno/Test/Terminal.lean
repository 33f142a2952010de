import Comyno.Test.Step
import Comyno.Text.Istream

/-!
# The program at a terminal

The menus and the handlers of the interactive program read standard input, which is a text here
that ends somewhere.  `terminal` is the machine `program` with this text: a step that reads takes
from the text what the code reads there, and all other steps leave the text alone.

## The model

* `token` is `std::cin >> str` and `message` is what the handlers do to read a line: `clear`,
  `ignore` up to the end of the present line, `std::getline`.
* `Item.input` is what the handler of an item of `cm_qpid.cpp` reads.  The items of
  `cm_pgclient.cpp` (`PgItem`) have no effect on the client of `cm_qpid.cpp`, but their handlers
  read from the same text.
* Nothing but a handler resets the flags of `std::cin`; `t_get_int` does not.

The lists `entered` and `called` record the items whose handlers have read their input and the calls
of the client that the main thread has made; no step reads them.

## Main results

* `terminal_step_cases` : the steps, by what they read.
* `terminal_maps` : at a terminal, the program runs as the machine `program`.
-/

namespace Comyno

open Conc Text

/-! ### Reading -/

/-- Code that reads standard input. -/
abbrev Reading := StateM (Istream Char)

/-- `std::cin >> str`, into an empty string. -/
def token : Reading String := fun cin =>
  let (str, cin) := cin.word isSpace
  (.ofList str, cin)

/-- `std::cin.clear()`, `std::cin.ignore(max, '\n')`. -/
def ignoreLine : Reading Unit := fun cin => ((), cin.clear.ignore '\n')

/-- `std::getline(std::cin, str)`, after `clear` and `ignore`. -/
def message : Reading String := fun cin =>
  let (str, cin) := cin.line '\n'
  (.ofList str, cin)

/-- What the handler of `cm_qpid_items[idx]` reads. -/
def Item.input : ℕ → Option (Reading Item)
  | 0 => some do return .sendMessage (← token) (← message)
  | 1 => some do return .sendMessageWithReplyAddress (← token) (← message) (← token)
  | 2 => some do return .sendInvalidMessage (← token)
  | 3 => some do return .receiveMessages (← token)
  | 4 => some do return .receiveMessagesAndReply (← token) (← message)
  | 5 => some do
    let exchange ← token
    ignoreLine
    return .receiveMessagesAndPersist exchange
  | 6 => some do return .receiveStop (← token)
  | 7 => some do return .sendMessage8Times (← message)
  | 8 => some do return .receiveMessage4Times
  | 9 => some do return .receiveStop4Times
  | _ => none

/-- The items of `cm_pgclient_items`, with what their handlers read from the terminal. -/
inductive PgItem where
  | persistMessage (message : String)
  | persistMessageOnExchange (exchange message : String)
  | queryExchange (exchange : String)
  | readAllMessages
  | persistMessage4Times (message : String)
  | readAllMessages4Times
  deriving DecidableEq, Repr

namespace PgItem

/-- The position in `cm_pgclient_items`. -/
def index : PgItem → ℕ
  | .persistMessage _ => 0
  | .persistMessageOnExchange _ _ => 1
  | .queryExchange _ => 2
  | .readAllMessages => 3
  | .persistMessage4Times _ => 4
  | .readAllMessages4Times => 5

/-- What the handler of `cm_pgclient_items[idx]` reads. -/
def input : ℕ → Option (Reading PgItem)
  | 0 => some do return .persistMessage (← message)
  | 1 => some do return .persistMessageOnExchange (← token) (← message)
  | 2 => some do return .queryExchange (← token)
  | 3 => some do return .readAllMessages
  | 4 => some do return .persistMessage4Times (← message)
  | 5 => some do return .readAllMessages4Times
  | _ => none

/-- The item that the menu `pc` enters with the token `str`. -/
def chosen (pc : MainPc) (str : List Char) : Option (Reading PgItem) :=
  match pc with
  | .items m =>
    if m = 0 then none
    else match choose (MainPc.itemLen m) str with
      | .entry idx => input idx
      | .again | .exit | .threw => none
  | _ => none

end PgItem

/-- An item of one of the two modules. -/
inductive Entry where
  | qpid (i : Item)
  | pg (i : PgItem)
  deriving DecidableEq, Repr

/-- The commands of an item, which call the client of `cm_qpid.cpp`. -/
def Entry.commands : Entry → List Command
  | .qpid i => i.commands
  | .pg _ => []

/-- A menu reads a token, and the handler of an item of `cm_pgclient.cpp` its input: the text and
the items entered afterwards. -/
def readToken (pc : MainPc) (cin : Istream Char) (entered : List Entry) :
    Istream Char × List Entry :=
  match PgItem.chosen pc (cin.word isSpace).1 with
  | some reading =>
    ((reading (cin.word isSpace).2).2, entered ++ [.pg (reading (cin.word isSpace).2).1])
  | none => ((cin.word isSpace).2, entered)

/-- The call of the client that the main thread is at. -/
def MainPc.atCall : MainPc → List Command
  | .call c _ => [c]
  | _ => []

/-! ### The machine -/

/-- The state of the program with its standard input. -/
structure Terminal where
  program : Program := {}
  cin : Istream Char
  /-- The items whose handlers have read their input, oldest first. -/
  entered : List Entry := []
  /-- The calls of the client by the main thread, oldest first. -/
  called : List Command := []

namespace Terminal

/-- The program is started with the text `text` as its standard input. -/
def start (text : List Char) : Terminal := { cin := ⟨text, false, false⟩ }

variable (s : Terminal)

/-- The text and the record after a menu has read a token, and with it the handler of an item of
`cm_pgclient.cpp` its input. -/
def afterToken (p : Program) : Terminal :=
  let (cin, entered) := readToken s.program.main s.cin s.entered
  { s with program := p, cin := cin, entered := entered }

/-- The state after a step of the program to `p`; `none` if what the step reads is not what the
text says. -/
def after (p : Program) : ProgramLabel → Option Terminal
  | .read str => if str = (s.cin.word isSpace).1 then some (s.afterToken p) else none
  | .input i =>
    match Item.input i.index with
    | some reading =>
      if i = (reading s.cin).1 then some { s with
        program := p
        cin := (reading s.cin).2
        entered := s.entered ++ [.qpid i] }
      else none
    | none => none
  | .main => some { s with program := p, called := s.called ++ s.program.main.atCall }
  | .callback _ | .library _ => some { s with program := p }

end Terminal

/-- **The interactive program at a terminal.** -/
def terminal (parse : AddressParser) : Machine Terminal ProgramLabel := 
  ⟨fun s l => ((program parse).step s.program l).bind fun p => s.after p l⟩

/-! ### Its steps -/

variable {parse : AddressParser} {s s' : Terminal} {l : ProgramLabel}

/-- The steps of the machine, by what they read. -/
inductive TerminalStep (parse : AddressParser) (s : Terminal) : ProgramLabel → Terminal → Prop
  | read {p : Program} :
      ProgramStep parse s.program (.read (s.cin.word isSpace).1) p →
      TerminalStep parse s (.read (s.cin.word isSpace).1) (s.afterToken p)
  | input {reading : Reading Item} {p : Program} :
      Item.input (reading s.cin).1.index = some reading →
      ProgramStep parse s.program (.input (reading s.cin).1) p →
      TerminalStep parse s (.input (reading s.cin).1) { s with
        program := p
        cin := (reading s.cin).2
        entered := s.entered ++ [.qpid (reading s.cin).1] }
  | main {p : Program} : ProgramStep parse s.program .main p →
      TerminalStep parse s .main { s with
        program := p
        called := s.called ++ s.program.main.atCall }
  | callback {r : RecvId} {p : Program} : ProgramStep parse s.program (.callback r) p →
      TerminalStep parse s (.callback r) { s with program := p }
  | library {l : BrokeredLabel} {p : Program} : ProgramStep parse s.program (.library l) p →
      TerminalStep parse s (.library l) { s with program := p }

/-- A step of the program, which agrees with the text. -/
theorem terminal_step_cases (h : (terminal parse).step s l = some s') :
    s.program.running = true ∧ TerminalStep parse s l s' := by
  obtain ⟨p, hst, hafter⟩ := Option.bind_eq_some_iff.1 h
  obtain ⟨hrunning, hprogram⟩ := program_step_cases hst
  refine ⟨hrunning, ?_⟩
  cases l with
  | read str =>
    obtain ⟨rfl, rfl⟩ : str = (s.cin.word isSpace).1 ∧ s.afterToken p = s' := by
      simpa [Terminal.after] using hafter
    exact .read hprogram
  | input i =>
    simp only [Terminal.after] at hafter
    split at hafter
    · rename_i reading hreading
      obtain ⟨rfl, hs⟩ := Option.ite_none_right_eq_some.1 hafter
      cases hs
      exact .input hreading hprogram
    · cases hafter
  | main =>
    cases hafter
    exact .main hprogram
  | callback r =>
    cases hafter
    exact .callback hprogram
  | library l =>
    cases hafter
    exact .library hprogram

@[simp] theorem Terminal.afterToken_program (p : Program) : (s.afterToken p).program = p := rfl

@[simp] theorem Terminal.afterToken_called (p : Program) :
    (s.afterToken p).called = s.called := rfl

@[simp] theorem Terminal.afterToken_entered (p : Program) : (s.afterToken p).entered =
    (readToken s.program.main s.cin s.entered).2 := rfl

theorem Terminal.program_of_after {p : Program} (h : s.after p l = some s') : s'.program = p := by
  cases l with
  | read str =>
    obtain ⟨-, hs⟩ := Option.ite_none_right_eq_some.1 h
    cases hs
    exact afterToken_program p
  | input i =>
    simp only [after] at h
    split at h
    · obtain ⟨-, hs⟩ := Option.ite_none_right_eq_some.1 h
      cases hs
      rfl
    · cases h
  | main | callback | library =>
    cases h
    rfl

/-- **At a terminal the program runs as it does anyway**: every run is a run of `program`. -/
theorem terminal_maps (parse : AddressParser) :
    Machine.Maps (terminal parse) (program parse) Terminal.program fun _ l => some l := by
  intro s l s' h
  obtain ⟨p, hst, hafter⟩ := Option.bind_eq_some_iff.1 h
  change (program parse).step s.program l = some s'.program
  rw [hst, Terminal.program_of_after hafter]

end Comyno
