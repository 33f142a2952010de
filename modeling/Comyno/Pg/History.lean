import Comyno.Pg.Persist

/-!
# Histories of persisted messages

`persistAll` makes calls of `pgMessagePersist`, one after the other, on one connection.  Its log
holds each call with the status it returned.  From an empty table `Messages` on, the rows are those
of the successful calls, in the order of the calls, whichever calls of the connector throw in
between.

## Main results

* `exists_persistAll` : the rows that a history adds.
* `select_eq` : what is selected for an exchange is what the successful calls for it have stored.
* `visible_eq` : these are the calls with the same exchange, if literals stand for the exchanges.
-/

namespace Comyno.Pg

/-! ### The log -/

/-- A call of `pgMessagePersist`, with the status that it returns. -/
structure PersistCall where
  message : String
  exchange : String
  status : PGStatus
  deriving DecidableEq, Repr

/-- Calls of `pgMessagePersist`, each with a message and an exchange. -/
def persistAll (E : Environment) : List (String × String) → PGConnector (List PersistCall)
  | [] => pure []
  | (message, exchange) :: calls => do
    let status ← pgMessagePersist E message exchange
    let log ← persistAll E calls
    pure (⟨message, exchange, status⟩ :: log)

/-- The calls of a log that returned success. -/
def successes (log : List PersistCall) : List PersistCall :=
  log.filter fun call => call.status = .pgSuccess

/-- The row is the one that the call inserts. -/
structure Database.Stores (db : Database) (D : Dialect) (call : PersistCall) (row : MessageRow) :
    Prop where
  payload : row.payload = D.stores call.message
  payload_isSome : row.payload.isSome
  refers : db.Refers row.exchangeId (D.named call.exchange)
  createdAt : row.createdAt.isSome

variable {E : Environment} {D : Dialect} {db db' : Database} {log : List PersistCall}
  {rows : List MessageRow}

/-- Which exchange is meant depends on the table `Exchanges` only. -/
theorem Database.refers_congr (h : db'.exchanges = db.exchanges) {e : Option ℤ}
    {name : Option String} : db'.Refers e name ↔ db.Refers e name := by
  unfold Database.Refers
  rw [h]

theorem Database.Stores.congr {call : PersistCall} {row : MessageRow} (h : db'.Stores D call row)
    (hexchanges : db'.exchanges = db.exchanges) : db.Stores D call row :=
  ⟨h.payload, h.payload_isSome, (refers_congr hexchanges).1 h.refers, h.createdAt⟩

/-- The row of a successful call. -/
theorem Database.Persisted.exists_row {message exchange : String}
    (h : db.Persisted (D.stores message) (D.named exchange) db') : ∃ row,
    db.Stores D ⟨message, exchange, .pgSuccess⟩ row ∧ db'.exchanges = db.exchanges ∧
      db'.messages = db.messages ++ [row] := by
  obtain ⟨row, hpayload, hsome, href, htime, hexchanges, hmessages⟩ := h
  exact ⟨row, ⟨hpayload, hpayload ▸ hsome, href, htime⟩, hexchanges, hmessages⟩

/-- **A history adds the rows of its successful calls**, in their order. -/
theorem exists_persistAll (E : Environment) (calls : List (String × String)) (s : Connection) :
    ∃ log s' rows, (persistAll E calls).run.run s = (.ok log, s') ∧
      log.map (fun call => (call.message, call.exchange)) = calls ∧
      s'.committed.exchanges = s.committed.exchanges ∧
      s'.committed.messages = s.committed.messages ++ rows ∧
      List.Forall₂ (s.committed.Stores E.dialect) (successes log) rows := by
  induction calls generalizing s with
  | nil => exact ⟨[], s, [], rfl, rfl, rfl, (List.append_nil _).symm, .nil⟩
  | cons p calls ih =>
    obtain ⟨message, exchange⟩ := p
    obtain ⟨status, s₁, hrun₁, hresult, -⟩ := exists_persist E message exchange s
    obtain ⟨log, s', rows, hrun, hlog, hexchanges, hmessages, hrows⟩ := ih s₁
    have hall : (persistAll E ((message, exchange) :: calls)).run.run s =
        (.ok (⟨message, exchange, status⟩ :: log), s') :=
      Sql.run_bind hrun₁ (Sql.run_bind hrun rfl)
    cases status with
    | pgSuccess =>
      obtain ⟨row, hrow, hexchanges₁, hmessages₁⟩ := hresult.exists_row
      refine ⟨_, s', row :: rows, hall, by rw [List.map_cons, hlog], hexchanges.trans hexchanges₁,
        by rw [hmessages, hmessages₁, List.append_assoc, List.singleton_append], ?_⟩
      exact .cons hrow (hrows.imp fun _ _ h => h.congr hexchanges₁)
    | pgError =>
      rw [show s₁.committed = s.committed from hresult] at hexchanges hmessages hrows
      exact ⟨_, s', rows, hall, by rw [List.map_cons, hlog], hexchanges, hmessages, hrows⟩

/-! ### Growing logs -/

/-- `db'` is `db` with the rows of the successful calls of the log, in their order. -/
def Database.ExtendsTo (db : Database) (D : Dialect) (log : List PersistCall) (db' : Database) :
    Prop :=
  db'.exchanges = db.exchanges ∧ ∃ rows, db'.messages = db.messages ++ rows ∧
    List.Forall₂ (db.Stores D) (successes log) rows

theorem Database.ExtendsTo.nil (db : Database) (D : Dialect) : db.ExtendsTo D [] db :=
  ⟨rfl, [], (List.append_nil _).symm, .nil⟩

/-- **A call adds its row**, or none. -/
theorem Database.ExtendsTo.persist {db'' : Database} {message exchange : String}
    {status : PGStatus} (h : db.ExtendsTo D log db')
    (hp : PersistResult D db' message exchange status db'') :
    db.ExtendsTo D (log ++ [⟨message, exchange, status⟩]) db'' := by
  obtain ⟨hexchanges, rows, hmessages, hrows⟩ := h
  cases status with
  | pgSuccess =>
    obtain ⟨row, hrow, hexchanges', hmessages'⟩ := hp.exists_row
    refine ⟨hexchanges'.trans hexchanges, rows ++ [row], ?_, ?_⟩
    · rw [hmessages', hmessages, List.append_assoc]
    · rw [successes, List.filter_append]
      exact List.rel_append hrows (.cons (hrow.congr hexchanges) .nil)
  | pgError =>
    have hsame : db'' = db' := hp
    refine ⟨hsame ▸ hexchanges, rows, hsame ▸ hmessages, ?_⟩
    rw [successes, List.filter_append]
    exact (List.append_nil (successes _)).symm ▸ hrows

/-- From an empty table on, the rows are those of the log. -/
theorem Database.ExtendsTo.stored (h : db.ExtendsTo D log db') (hempty : db.messages = []) :
    List.Forall₂ (db'.Stores D) (successes log) db'.messages := by
  obtain ⟨hexchanges, rows, hmessages, hrows⟩ := h
  rw [hmessages, hempty, List.nil_append]
  exact hrows.imp fun _ _ hstores => hstores.congr hexchanges.symm

/-- Every row is the one of some successful call. -/
theorem exists_of_stores (h : List.Forall₂ (db.Stores D) (successes log) rows) {row : MessageRow}
    (hrow : row ∈ rows) : ∃ call ∈ successes log, db.Stores D call row := by
  obtain ⟨i, hi, rfl⟩ := List.mem_iff_getElem.1 hrow
  have hlen := h.length_eq
  exact ⟨_, List.getElem_mem (hlen ▸ hi), List.forall₂_iff_get.1 h |>.2 i (hlen ▸ hi) hi⟩

/-! ### What is selected -/

/-- The successful calls that a query for the exchange should see: all of them for `""`. -/
def visible (D : Dialect) (log : List PersistCall) (exchange : String) : List PersistCall :=
  (successes log).filter fun call => exchange = "" ∨ D.named call.exchange = D.named exchange

/-- If the literals of the exchanges stand for the exchanges, these are the calls for it. -/
theorem visible_eq {exchange : String} (h : D.denoted exchange = exchange)
    (hlog : ∀ call ∈ successes log, D.denoted call.exchange = call.exchange) :
    visible D log exchange =
      (successes log).filter fun call => exchange = "" ∨ call.exchange = exchange := by
  refine List.filter_congr fun call hcall => decide_eq_decide.2 (or_congr_right' fun hne => ?_)
  rw [D.named_eq h, D.named_eq (hlog call hcall), exchangeName, exchangeName, if_neg hne]
  by_cases hempty : call.exchange = ""
  · rw [if_pos hempty, hempty]
    exact iff_of_false (by simp) (Ne.symm hne)
  · rw [if_neg hempty, Option.some.injEq]

/-- The row of a call refers to a known exchange if and only if the call was made for it. -/
theorem Database.Refers.eq_some_iff {e : Option ℤ} {calledFor : Option String} {x : ExchangeRow}
    (h : db.Refers e calledFor) (hx : x ∈ db.exchanges) {name : String}
    (hname : x.exchangeName = some name) : e = some x.id ↔ calledFor = some name := by
  cases calledFor with
  | none =>
    rw [show e = none from h]
    simp
  | some other =>
    obtain ⟨y, hy, hyname, rfl⟩ := h
    constructor
    · intro hid
      have hxy : y = x := Database.eq_of_id_eq hy hx (Option.some.inj hid)
      rw [← hyname, hxy, hname]
    · intro hnames
      obtain rfl := Option.some.inj hnames
      have hid := (Database.exchangeIds_eq hy hyname).symm.trans (Database.exchangeIds_eq hx hname)
      exact congrArg some (List.singleton_inj.1 hid)

/-- Related lists have related parts. -/
theorem map_filter_eq {α β γ : Type} {R : α → β → Prop} {l : List α} {r : List β} {p : α → Bool}
    {q : β → Bool} {f : α → γ} {g : β → γ} (h : List.Forall₂ R l r)
    (hpq : ∀ a b, R a b → (p a ↔ q b)) (hfg : ∀ a b, R a b → f a = g b) :
    (l.filter p).map f = (r.filter q).map g := by
  have hfilter : List.Forall₂ R (l.filter p) (r.filter q) :=
    List.rel_filter (fun a b hab => hpq a b hab) h
  rw [← List.forall₂_eq_eq_eq, List.forall₂_map_left_iff, List.forall₂_map_right_iff]
  exact hfilter.imp fun a b => hfg a b

/-- **All rows** carry what the successful calls have stored. -/
theorem select_all_eq (h : List.Forall₂ (db.Stores D) (successes log) db.messages) :
    (db.select none).map MessageRow.payload =
      (visible D log "").map fun call => D.stores call.message := by
  have hall : db.select none = db.messages.filter fun _ => true :=
    (List.filter_eq_self.2 fun _ _ => rfl).symm
  rw [hall]
  refine (map_filter_eq h ?_ ?_).symm
  · exact fun call row _ => by simp
  · exact fun call row hrow => hrow.payload.symm

/-- **The rows of a known exchange** carry what the successful calls for it have stored. -/
theorem select_eq (h : List.Forall₂ (db.Stores D) (successes log) db.messages) {x : ExchangeRow}
    (hx : x ∈ db.exchanges) {exchange : String} (hname : x.exchangeName = some (D.denoted exchange))
    (hne : exchange ≠ "") : (db.select (some x.id)).map MessageRow.payload =
      (visible D log exchange).map fun call => D.stores call.message := by
  refine (map_filter_eq h ?_ ?_).symm
  · intro call row hrow
    simp [hne, hrow.refers.eq_some_iff hx hname, D.named_of_ne hne]
  · exact fun call row hrow => hrow.payload.symm

end Comyno.Pg
