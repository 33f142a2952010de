import Comyno.Pg.Database
import Mathlib

/-!
# The texts of the statements

The client puts its statements together from texts; what a text means is up to the server.  A
`Dialect` is a server that reads the five statements of the client as they are written, and takes
each literal of `quoteString` for the text that it stands for.  This is the text that was quoted, if
there is no zero byte in it; of any other text nothing is assumed.

In the dialect `standard`, `quoteString` doubles the quotes, and stops at a zero byte.
-/

namespace Comyno.Pg

/-- How literals are written, and how statements are read. -/
structure Dialect where
  quoteString : String → String
  /-- The text that a literal of `quoteString` stands for. -/
  denoted : String → String
  denoted_eq : ∀ str, '\x00' ∉ str.toList → denoted str = str
  parse : String → Option Statement
  parse_exchangeIds : ∀ name, parse ("SELECT ID FROM Exchanges WHERE exchange_name = " ++
    quoteString name) = some (.exchangeIds (denoted name))
  parse_insert : ∀ message, parse ("INSERT INTO Messages (payload) VALUES (" ++
    quoteString message ++ ")") = some (.insert (denoted message) none)
  parse_insertOn : ∀ message (exchangeID : ℤ),
    parse ("INSERT INTO Messages (payload, exchange_id) VALUES (" ++ quoteString message ++ " , " ++
      toString exchangeID ++ ")") = some (.insert (denoted message) (some exchangeID))
  parse_selectOn : ∀ exchangeID : ℤ,
    parse ("SELECT ID, payload, created_at FROM Messages WHERE exchange_id = " ++
      toString exchangeID) = some (.select (some exchangeID))
  parse_select : parse "SELECT ID, payload, created_at FROM Messages" = some (.select none)

/-- The name of the exchange that a call is for; `""` names none. -/
def exchangeName (exchange : String) : Option String :=
  if exchange = "" then none else some exchange

namespace Dialect

/-- The name under which the exchange of a call is looked up. -/
def named (D : Dialect) (exchange : String) : Option String := (exchangeName exchange).map D.denoted

/-- What the column `payload`, a `VARCHAR(255)`, stores for a message. -/
def stores (D : Dialect) (message : String) : Option String := Sql.varchar 255 (D.denoted message)

theorem named_empty (D : Dialect) : D.named "" = none := rfl

theorem named_of_ne (D : Dialect) {exchange : String} (h : exchange ≠ "") :
    D.named exchange = some (D.denoted exchange) := by
  rw [named, exchangeName, if_neg h, Option.map_some]

/-- If its literal stands for it, a message of at most 255 characters is stored as it is. -/
theorem stores_eq (D : Dialect) {message : String} (h : D.denoted message = message)
    (hlength : message.length ≤ 255) : D.stores message = some message := by
  rw [stores, h, Sql.varchar, if_pos hlength]

/-- If its literal stands for it, an exchange is looked up under its own name. -/
theorem named_eq (D : Dialect) {exchange : String} (h : D.denoted exchange = exchange) :
    D.named exchange = exchangeName exchange := by
  by_cases hempty : exchange = ""
  · rw [hempty]
    rfl
  · rw [D.named_of_ne hempty, h, exchangeName, if_neg hempty]

/-- The query of a task selects the messages of its exchange; `-1` stands for all. -/
theorem parse_query (D : Dialect) (task : Task) : D.parse task.query =
    some (.select (if task.exchangeID = -1 then none else some task.exchangeID)) := by
  unfold Task.query
  by_cases h : task.exchangeID = -1
  · rw [if_neg (not_not.2 h), if_pos h]
    exact D.parse_select
  · rw [if_pos h, if_neg h]
    exact D.parse_selectOn task.exchangeID

/-! ### The standard -/

/-- The forms of the statements. -/
inductive Form where
  | exchangeIds
  | insert
  | insertOn
  | select
  deriving DecidableEq, Repr

namespace Form

/-- How the statement begins. -/
def text : Form → String
  | exchangeIds => "SELECT ID FROM Exchanges WHERE exchange_name = "
  | insert => "INSERT INTO Messages (payload) VALUES ("
  | insertOn => "INSERT INTO Messages (payload, exchange_id) VALUES ("
  | select => "SELECT ID, payload, created_at FROM Messages"

/-- How the statement goes on. -/
def read : Form → List Char → Option Statement
  | exchangeIds, cs => match Sql.readLiteral cs with
    | some (name, []) => some (.exchangeIds (String.ofList name))
    | _ => none
  | insert, cs => match Sql.readLiteral cs with
    | some (message, [')']) => some (.insert (String.ofList message) none)
    | _ => none
  | insertOn, cs => match Sql.readLiteral cs with
    | some (message, ' ' :: ',' :: ' ' :: rest) =>
      if rest.getLast? = some ')' then
        (String.ofList rest.dropLast).toInt?.map fun e =>
          .insert (String.ofList message) (some e)
      else none
    | _ => none
  | select, [] => some (.select none)
  | select, cs =>
    if " WHERE exchange_id = ".toList <+: cs then
      (String.ofList (cs.drop 21)).toInt?.map fun e => .select (some e)
    else none

/-- No statement begins like another one. -/
theorem eq_of_prefix {f g : Form} (h : f.text.toList <+: g.text.toList) : f = g := by
  revert h
  cases f <;> cases g <;> simp [text]

end Form

/-- All forms. -/
def forms : List Form := [.exchangeIds, .insert, .insertOn, .select]

/-- The statement that a text stands for. -/
def read (text : String) : Option Statement :=
  (forms.find? fun f => f.text.toList <+: text.toList).bind fun f =>
    f.read (text.toList.drop f.text.length)

/-- A text that begins like a statement is read as one. -/
theorem read_append (f : Form) (rest : String) : read (f.text ++ rest) = f.read rest.toList := by
  have hself : f.text.toList <+: (f.text ++ rest).toList := by
    rw [String.toList_append]
    exact List.prefix_append _ _
  have hfind : forms.find? (fun g => g.text.toList <+: (f.text ++ rest).toList) = some f := by
    cases hg : forms.find? (fun g => g.text.toList <+: (f.text ++ rest).toList) with
    | none =>
      have hmem : f ∈ forms := by cases f <;> simp [forms]
      exact absurd (decide_eq_true hself) (List.find?_eq_none.1 hg f hmem)
    | some g =>
      have hpre : g.text.toList <+: f.text.toList ++ rest.toList := by
        rw [← String.toList_append]
        simpa using List.find?_some hg
      rcases List.prefix_or_prefix_of_prefix hpre (List.prefix_append _ _) with h | h
      · rw [Form.eq_of_prefix h]
      · rw [Form.eq_of_prefix h]
  rw [read, hfind, Option.bind_some, String.toList_append, ← String.length_toList, List.drop_left]

/-- The dialect with doubled quotes, for any meaning of the texts. -/
def doubling (denoted : String → String)
    (denoted_eq : ∀ str, '\x00' ∉ str.toList → denoted str = str) : Dialect where
  quoteString str := Sql.quote (denoted str)
  denoted := denoted
  denoted_eq := denoted_eq
  parse := read
  parse_exchangeIds name := by
    have h := Sql.readLiteral_quote (denoted name) [] (by simp)
    rw [List.append_nil] at h
    rw [show "SELECT ID FROM Exchanges WHERE exchange_name = " = Form.exchangeIds.text from rfl,
      read_append, Form.read, h]
    simp
  parse_insert message := by
    have h := Sql.readLiteral_quote (denoted message) [')'] (by simp)
    rw [String.append_assoc,
      show "INSERT INTO Messages (payload) VALUES (" = Form.insert.text from rfl, read_append,
      Form.read, String.toList_append, show ")".toList = [')'] by simp, h]
    simp
  parse_insertOn message e := by
    have h := Sql.readLiteral_quote (denoted message) ((" , " ++ toString e ++ ")").toList)
      (by simp)
    simp only [String.append_assoc]
    rw [show "INSERT INTO Messages (payload, exchange_id) VALUES (" = Form.insertOn.text from rfl,
      read_append, Form.read, String.toList_append, ← String.append_assoc, h]
    simp
  parse_selectOn e := by
    rw [show "SELECT ID, payload, created_at FROM Messages WHERE exchange_id = " =
      Form.select.text ++ " WHERE exchange_id = " from rfl, String.append_assoc, read_append]
    simp [Form.read]
  parse_select := by
    rw [show "SELECT ID, payload, created_at FROM Messages" = Form.select.text ++ "" from rfl,
      read_append]
    simp [Form.read]

/-- The dialect with doubled quotes that stops at a zero byte. -/
def standard : Dialect := doubling Sql.cString fun _ => Sql.cString_eq

end Dialect

end Comyno.Pg
