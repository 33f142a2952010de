import Comyno.Pg.Client
import Comyno.Sql.Literal
import Mathlib.Data.List.Nodup
import Mathlib.Data.List.Count

/-!
# The database

The tables `Exchanges` and `Messages`, as `init.sql` creates them, with the statements that the
client executes on them.  A value of type `Database` satisfies the constraints of the schema.

## Main results

* `Database.exchangeIds_eq` : the lookup of an exchange returns its ID, and nothing for an unknown
  exchange.
* `Database.insert_eq_some_iff` : an insertion adds a row that satisfies the constraints.
-/

namespace Comyno.Pg

/-! ### Tables -/

/-- A row of the table `Exchanges`. -/
structure ExchangeRow where
  id : ℤ
  exchangeName : Option String
  exchangeType : Option String
  deriving DecidableEq, Repr

/-- A row of the table `Messages`. -/
structure MessageRow where
  id : ℤ
  payload : Option String
  exchangeId : Option ℤ
  createdAt : Option String
  deriving DecidableEq, Repr

/-- The tables, with the constraints of the schema. -/
@[ext]
structure Database where
  exchanges : List ExchangeRow
  messages : List MessageRow
  /-- `Exchanges.ID` is a primary key. -/
  exchangeKey : (exchanges.map ExchangeRow.id).Nodup
  /-- `exchange_name` is unique. -/
  exchangeNames : (exchanges.filterMap ExchangeRow.exchangeName).Nodup
  /-- `Messages.ID` is a primary key. -/
  messageKey : (messages.map MessageRow.id).Nodup
  /-- `exchange_id` references `Exchanges`. -/
  references : ∀ row ∈ messages, ∀ e ∈ row.exchangeId, e ∈ exchanges.map ExchangeRow.id
  /-- `payload` is a `VARCHAR(255)`. -/
  payloads : ∀ row ∈ messages, ∀ p ∈ row.payload, p.length ≤ 255

namespace Database

variable (db : Database)

/-- The constraints on a new row of `Messages`. -/
def Admits (row : MessageRow) : Prop :=
  row.id ∉ db.messages.map MessageRow.id ∧
    (∀ e ∈ row.exchangeId, e ∈ db.exchanges.map ExchangeRow.id) ∧
      ∀ p ∈ row.payload, p.length ≤ 255

instance (row : MessageRow) : Decidable (db.Admits row) :=
  inferInstanceAs (Decidable (_ ∧ _ ∧ _))

variable {db} in
/-- The database with a new row. -/
def add {row : MessageRow} (h : db.Admits row) : Database where
  exchanges := db.exchanges
  messages := db.messages ++ [row]
  exchangeKey := db.exchangeKey
  exchangeNames := db.exchangeNames
  messageKey := by
    rw [List.map_append, List.nodup_append]
    refine ⟨db.messageKey, List.nodup_singleton _, fun a ha b hb e => h.1 ?_⟩
    rw [List.map_singleton, List.mem_singleton] at hb
    exact hb ▸ e ▸ ha
  references := by
    simp only [List.forall_mem_append, List.forall_mem_singleton]
    exact ⟨db.references, h.2.1⟩
  payloads := by
    simp only [List.forall_mem_append, List.forall_mem_singleton]
    exact ⟨db.payloads, h.2.2⟩

/-- A row is inserted into `Messages`; `none` if a constraint is violated. -/
def insert (row : MessageRow) : Option Database :=
  if h : db.Admits row then some (add h) else none

/-- `SELECT ID FROM Exchanges WHERE exchange_name = name`. -/
def exchangeIds (name : String) : List ℤ :=
  (db.exchanges.filter fun x => x.exchangeName = some name).map ExchangeRow.id

/-- `SELECT ID, payload, created_at FROM Messages`, of one exchange or of all of them. -/
def select : Option ℤ → List MessageRow
  | none => db.messages
  | some e => db.messages.filter fun row => row.exchangeId = some e

/-- `name` is the name of an exchange. -/
def Knows (name : String) : Prop := ∃ x ∈ db.exchanges, x.exchangeName = some name

instance (name : String) : Decidable (db.Knows name) :=
  inferInstanceAs (Decidable (∃ x ∈ db.exchanges, x.exchangeName = some name))

variable {db}

theorem insert_eq_some_iff {row : MessageRow} {db' : Database} : db.insert row = some db' ↔
    db.Admits row ∧ db'.exchanges = db.exchanges ∧ db'.messages = db.messages ++ [row] := by
  unfold insert
  split
  · rename_i h
    rw [Option.some.injEq, and_iff_right h]
    constructor
    · rintro rfl
      exact ⟨rfl, rfl⟩
    · rintro ⟨he, hm⟩
      exact Database.ext he.symm hm.symm
  · rename_i h
    simp [h]

/-- Of the rows of a list with a unique column, at most one has a given value there. -/
theorem filter_of_unique {α β : Type} [DecidableEq β] {f : α → Option β} {l : List α} {a : α}
    {b : β} (h : (l.filterMap f).Nodup) (ha : a ∈ l) (hb : f a = some b) :
    l.filter (fun x => f x = some b) = [a] := by
  induction l with
  | nil => cases ha
  | cons x l ih =>
    by_cases hx : f x = some b
    · rw [List.filterMap_cons_some hx, List.nodup_cons] at h
      have hnone : ∀ y ∈ l, f y ≠ some b := fun y hy hyb =>
        h.1 (List.mem_filterMap.2 ⟨y, hy, hyb⟩)
      have hax : a = x := by
        rcases List.mem_cons.1 ha with rfl | hal
        · rfl
        · exact absurd hb (hnone a hal)
      have hnil : l.filter (fun x => f x = some b) = [] := by
        simpa [List.filter_eq_nil_iff] using hnone
      rw [List.filter_cons_of_pos (by simpa using hx), hnil, hax]
    · have hax : a ≠ x := fun e => hx (e ▸ hb)
      rw [List.filter_cons_of_neg (by simpa using hx)]
      refine ih ?_ (List.mem_of_ne_of_mem hax ha)
      cases hfx : f x with
      | none => rwa [List.filterMap_cons_none hfx] at h
      | some c =>
        rw [List.filterMap_cons_some hfx] at h
        exact h.of_cons

/-- **The lookup of an exchange** returns its ID. -/
theorem exchangeIds_eq {x : ExchangeRow} {name : String} (hx : x ∈ db.exchanges)
    (hname : x.exchangeName = some name) : db.exchangeIds name = [x.id] := by
  rw [exchangeIds, filter_of_unique db.exchangeNames hx hname]
  rfl

theorem exchangeIds_eq_nil_iff {name : String} : db.exchangeIds name = [] ↔ ¬ db.Knows name := by
  simp [exchangeIds, Knows, List.filter_eq_nil_iff]

/-- What is selected is in the table. -/
theorem mem_of_mem_select {e : Option ℤ} {row : MessageRow} (h : row ∈ db.select e) :
    row ∈ db.messages := by
  cases e with
  | none => exact h
  | some e => exact (List.mem_filter.1 h).1

/-- Different exchanges have different IDs. -/
theorem eq_of_id_eq {x y : ExchangeRow} (hx : x ∈ db.exchanges) (hy : y ∈ db.exchanges)
    (h : x.id = y.id) : x = y :=
  List.inj_on_of_nodup_map db.exchangeKey hx hy h

end Database

theorem Database.payloads_nil :
    ∀ row ∈ ([] : List MessageRow), ∀ p ∈ row.payload, p.length ≤ 255 := by simp

/-- The database that `init.sql` creates. -/
def Database.initial : Database where
  exchanges := [⟨1, some "send-queue", some "queue"⟩, ⟨2, some "send-topic", some "topic"⟩,
    ⟨3, some "reply-queue", some "queue"⟩, ⟨4, some "reply-topic", some "topic"⟩]
  messages := []
  exchangeKey := by decide
  exchangeNames := by decide
  messageKey := List.nodup_nil
  references := by simp
  payloads := Database.payloads_nil

/-! ### Statements -/

/-- The statements of the client. -/
inductive Statement where
  | exchangeIds (name : String)
  | select (exchangeId : Option ℤ)
  | insert (payload : String) (exchangeId : Option ℤ)
  deriving DecidableEq, Repr

/-- What `executeQuery` returns. -/
inductive QueryResult where
  | ids (r : List ℤ)
  | rows (r : List MessageRow)
  | inserted
  deriving DecidableEq, Repr

/-- The result has no rows. -/
def QueryResult.isEmpty : QueryResult → Bool
  | .ids r => r.isEmpty
  | .rows r => r.isEmpty
  | .inserted => true

/-- The first column of the first row. -/
def QueryResult.firstInt : QueryResult → Option ℤ
  | .ids r => r.head?
  | .rows r => r.head?.map MessageRow.id
  | .inserted => none

/-- A statement is executed.  `Messages.ID` is a `SERIAL`: the next ID is taken from a sequence,
which no transaction takes back; `now` is the time at which it is taken. -/
def Statement.execute (now : ℤ → String) :
    Statement → Database → ℤ → Except String (QueryResult × Database) × ℤ
  | .exchangeIds name, db, sequence => (.ok (.ids (db.exchangeIds name), db), sequence)
  | .select e, db, sequence => (.ok (.rows (db.select e), db), sequence)
  | .insert payload e, db, sequence =>
    if sequence ≤ 2147483647 then
      match Sql.varchar 255 payload with
      | none => (.error "value too long for type character varying(255)", sequence + 1)
      | some stored =>
        match db.insert ⟨sequence, some stored, e, some (now sequence)⟩ with
        | some db' => (.ok (.inserted, db'), sequence + 1)
        | none => (.error "constraint violated", sequence + 1)
    else (.error "nextval: reached maximum value of sequence", sequence)

end Comyno.Pg
