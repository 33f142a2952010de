import Comyno.Pg.Dialect
import Comyno.Sql.Transaction

/-!
# Persisting a message

`pgMessagePersist` looks up the exchange, inserts the message and commits, in one transaction and
one try block.  It is modelled as a program of the connector, each of whose calls may throw; the
statements may fail as well.

## Main results

* `persist_spec` : whichever calls throw, no exception leaves `pgMessagePersist`, and it has either
  inserted one row and returned success, or changed nothing and returned an error.
* `persist_exact` : so its status tells which.
* `persist_cuts_spaces` : the row does not always carry the message itself: the column is a
  `VARCHAR(255)`, which cuts spaces beyond the 255th character.

A transaction that is not committed has no effect, and neither has a commit that throws.
-/

namespace Comyno.Pg

open Std.Do

set_option mvcgen.warning false

/-- What the connector is connected to. -/
structure Environment where
  dialect : Dialect
  /-- The calls that throw, in the order in which they are made, with what they say. -/
  faults : ℕ → Option String
  /-- The time at which an ID is taken from the sequence of `Messages`. -/
  now : ℤ → String

/-- A connection; the sequence of `Messages` is not part of its transactions. -/
abbrev Connection := Sql.Session Database ℤ

/-- A program of the connector. -/
abbrev PGConnector := Sql.Transactional Database ℤ

namespace PGConnector

variable (E : Environment)

def openConnection : PGConnector Unit := Sql.call E.faults (pure ())

def createTransaction : PGConnector Unit := Sql.call E.faults Sql.start

def quoteString (str : String) : PGConnector String :=
  Sql.call E.faults (pure (E.dialect.quoteString str))

def executeQuery (query : String) : PGConnector QueryResult :=
  Sql.call E.faults <| Sql.statement fun db sequence =>
    match E.dialect.parse query with
    | some statement => statement.execute E.now db sequence
    | none => (.error "syntax error", sequence)

def resultIsEmpty (r : QueryResult) : PGConnector Bool :=
  Sql.call E.faults (pure r.isEmpty)

def resultGetFirstInt (r : QueryResult) : PGConnector ℤ :=
  Sql.call E.faults <| match r.firstInt with
    | some exchangeID => pure exchangeID
    | none => throw (.std "row number out of range")

def commitTransaction : PGConnector Unit := Sql.call E.faults Sql.commit

end PGConnector

open PGConnector in
/-- The try block of `pgMessagePersist`. -/
def persistBlock (E : Environment) (message exchange : String) : PGConnector PGStatus := do
  openConnection E
  createTransaction E
  let ret ←
    (if exchange ≠ "" then do
      let str ← quoteString E exchange
      let r ← executeQuery E ("SELECT ID FROM Exchanges WHERE exchange_name = " ++ str)
      if ← resultIsEmpty E r then
        pure .pgError
      else do
        let exchangeID ← resultGetFirstInt E r
        let str ← quoteString E message
        let _ ← executeQuery E ("INSERT INTO Messages (payload, exchange_id) VALUES (" ++ str ++
          " , " ++ toString exchangeID ++ ")")
        pure .pgSuccess
    else do
      let str ← quoteString E message
      let _ ← executeQuery E ("INSERT INTO Messages (payload) VALUES (" ++ str ++ ")")
      pure .pgSuccess : PGConnector PGStatus)
  -- also when the exchange is unknown
  commitTransaction E
  pure ret

/-- `PGClient::pgMessagePersist`. -/
def pgMessagePersist (E : Environment) (message exchange : String) : PGConnector PGStatus :=
  tryCatch (Sql.transact (persistBlock E message exchange)) fun e => match e with
    | .std _ => pure .pgError
    | .other => throw e

/-! ### One row, or nothing -/

namespace Database

/-- `e` is what `exchange_id` holds for the exchange of a name: its ID, and `NULL` for none. -/
def Refers (db : Database) (e : Option ℤ) : Option String → Prop
  | none => e = none
  | some name => ∃ x ∈ db.exchanges, x.exchangeName = some name ∧ e = some x.id

/-- `db'` is `db` with one more row, which carries the payload, the ID of the exchange of the name
and the time. -/
def Persisted (db : Database) (payload name : Option String) (db' : Database) : Prop :=
  ∃ row, row.payload = payload ∧ payload.isSome ∧ db.Refers row.exchangeId name ∧
    row.createdAt.isSome ∧ db'.exchanges = db.exchanges ∧ db'.messages = db.messages ++ [row]

variable {db db' : Database} {name : Option String}

/-- The first ID that the lookup returns is the one of the exchange. -/
theorem refers_of_head {i : ℤ} {name : String} (h : (db.exchangeIds name).head? = some i) :
    db.Refers (some i) (some name) := by
  obtain ⟨x, hx, rfl⟩ := List.mem_map.1 (List.mem_of_mem_head? h)
  obtain ⟨hx, hname⟩ := List.mem_filter.1 hx
  exact ⟨x, hx, of_decide_eq_true hname, rfl⟩

/-- A new row makes a difference. -/
theorem Persisted.ne {payload : Option String} (h : db.Persisted payload name db') :
    db' ≠ db := by
  rintro rfl
  obtain ⟨row, -, -, -, -, -, hmessages⟩ := h
  simpa using congrArg List.length hmessages

/-- An insertion that succeeds adds the row. -/
theorem execute_insert {now : ℤ → String} {payload : String} {e : Option ℤ} {sequence : ℤ}
    {r : QueryResult}
    (h : ((Statement.insert payload e).execute now db sequence).1 = .ok (r, db'))
    (href : db.Refers e name) : db.Persisted (Sql.varchar 255 payload) name db' := by
  simp only [Statement.execute] at h
  split at h
  · cases hstored : Sql.varchar 255 payload with
    | none => simp [hstored] at h
    | some stored =>
      cases hdb : db.insert ⟨sequence, some stored, e, some (now sequence)⟩ with
      | none => simp [hstored, hdb] at h
      | some db'' =>
        obtain ⟨-, rfl⟩ : QueryResult.inserted = r ∧ db'' = db' := by
          simpa [hstored, hdb] using h
        obtain ⟨-, hexchanges, hmessages⟩ := insert_eq_some_iff.1 hdb
        exact ⟨_, rfl, rfl, href, rfl, hexchanges, hmessages⟩
  · cases h

end Database

namespace PGConnector

variable {E : Environment} {c t : Database}

theorem works_openConnection : Sql.Works c t (openConnection E) fun _ t' => t' = t :=
  .call (.pure rfl)

theorem works_createTransaction : Sql.Works c t (createTransaction E) fun _ t' => t' = c :=
  .call .start

theorem works_quoteString {str : String} : Sql.Works c t (quoteString E str) fun r t' =>
    r = E.dialect.quoteString str ∧ t' = t :=
  .call (.pure ⟨rfl, rfl⟩)

theorem works_executeQuery {query : String} {statement : Statement}
    (h : E.dialect.parse query = some statement) :
    Sql.Works c t (executeQuery E query) fun r t' =>
      ∃ sequence, (statement.execute E.now t sequence).1 = .ok (r, t') := by
  refine .call (.statement fun sequence r t' hr => ⟨sequence, ?_⟩)
  simpa only [h] using hr

theorem works_resultIsEmpty {r : QueryResult} : Sql.Works c t (resultIsEmpty E r) fun b t' =>
    b = r.isEmpty ∧ t' = t :=
  .call (.pure ⟨rfl, rfl⟩)

theorem works_resultGetFirstInt {r : QueryResult} :
    Sql.Works c t (resultGetFirstInt E r) fun i t' => r.firstInt = some i ∧ t' = t := by
  refine .call ?_
  cases hr : r.firstInt with
  | none => exact .throw
  | some i => exact .pure ⟨rfl, rfl⟩

end PGConnector

/-- How `pgMessagePersist` leaves the database `db`. -/
def PersistResult (D : Dialect) (db : Database) (message exchange : String) :
    PGStatus → Database → Prop
  | .pgSuccess, db' => db.Persisted (D.stores message) (D.named exchange) db'
  | .pgError, db' => db' = db

variable {E : Environment} {c t : Database} {message exchange : String}

open PGConnector in
/-- The insertion that both ways end with. -/
theorem works_insert {e : Option ℤ} (query : String → String)
    (hparse : ∀ message, E.dialect.parse (query (E.dialect.quoteString message)) =
      some (.insert (E.dialect.denoted message) e)) (href : c.Refers e (E.dialect.named exchange)) :
    Sql.Works c c (do
      let str ← quoteString E message
      let _ ← executeQuery E (query str)
      pure PGStatus.pgSuccess) (PersistResult E.dialect c message exchange) := by
  refine .bind works_quoteString ?_
  rintro _ _ ⟨rfl, rfl⟩
  refine .bind (works_executeQuery (hparse message)) ?_
  rintro r t' ⟨sequence, hr⟩
  exact .pure (Database.execute_insert hr href)

open PGConnector in
/-- The three ways through the try block share its commit. -/
theorem persistBlock_commits :
    Sql.Commits c t (persistBlock E message exchange)
      (PersistResult E.dialect c message exchange) := by
  unfold persistBlock
  refine .bind works_openConnection fun _ _ _ => ?_
  refine .bind works_createTransaction ?_
  rintro - t' rfl
  refine .bind (Q := PersistResult E.dialect t' message exchange) ?_ fun ret _ h => .commit h
  by_cases hexchange : exchange = ""
  · subst hexchange
    exact works_insert (fun str => "INSERT INTO Messages (payload) VALUES (" ++ str ++ ")")
      E.dialect.parse_insert rfl
  · rw [if_pos hexchange]
    refine .bind works_quoteString ?_
    rintro _ db ⟨rfl, rfl⟩
    refine .bind (works_executeQuery (E.dialect.parse_exchangeIds exchange)) ?_
    rintro r _ ⟨sequence, hr⟩
    cases hr
    refine .bind works_resultIsEmpty ?_
    rintro unknown _ ⟨hunknown, rfl⟩
    cases unknown with
    | true => exact .pure rfl
    | false =>
      refine .bind works_resultGetFirstInt ?_
      rintro exchangeID _ ⟨hid, rfl⟩
      exact works_insert
        (fun str => "INSERT INTO Messages (payload, exchange_id) VALUES (" ++ str ++ " , " ++
          toString exchangeID ++ ")")
        (fun message => E.dialect.parse_insertOn message _)
        (E.dialect.named_of_ne hexchange ▸ Database.refers_of_head hid)

/-- **`pgMessagePersist` is atomic**, whichever calls throw: it inserts the row of the message and
returns success, or it changes nothing and returns an error; it lets no exception escape, and its
transaction is gone at the end. -/
theorem persist_spec (E : Environment) (message exchange : String) :
    ⦃fun s => ⌜s.committed = c ∧ s.work = t⌝⦄ pgMessagePersist E message exchange
    ⦃post⟨fun status s => ⌜PersistResult E.dialect c message exchange status s.committed ∧
      s.work = s.committed⌝, fun _ _ => ⌜False⌝⟩⦄ :=
  persistBlock_commits.handle rfl

/-- The same, of a run. -/
theorem exists_persist (E : Environment) (message exchange : String) (s : Connection) :
    ∃ status s', (pgMessagePersist E message exchange).run.run s = (.ok status, s') ∧
      PersistResult E.dialect s.committed message exchange status s'.committed ∧
      s'.work = s'.committed := by
  have h := Sql.triple_iff.1 (persist_spec E message exchange) s ⟨rfl, rfl⟩
  generalize (pgMessagePersist E message exchange).run.run s = r at h ⊢
  obtain ⟨e | status, s'⟩ := r
  · exact h.elim
  · exact ⟨status, s', rfl, h⟩

/-! ### A run without faults -/

open PGConnector in
/-- Without an exchange and without faults, a message is persisted if the table admits its row. -/
theorem persist_run {message stored : String} {s : Connection} {db : Database}
    (hfaults : ∀ n, E.faults n = none) (hsequence : s.outside ≤ 2147483647)
    (hstored : E.dialect.stores message = some stored)
    (hdb : s.committed.insert ⟨s.outside, some stored, none, some (E.now s.outside)⟩ = some db) :
    (pgMessagePersist E message "").run.run s =
      (.ok .pgSuccess, ⟨db, db, s.outside + 1, s.calls + 5⟩) := by
  have hexecute : (Statement.insert (E.dialect.denoted message) none).execute E.now s.committed
      s.outside = (.ok (.inserted, db), s.outside + 1) := by
    have hvarchar : Sql.varchar 255 (E.dialect.denoted message) = some stored := hstored
    simp [Statement.execute, hsequence, hvarchar, hdb]
  have hquery {s' : Connection} (hwork : s'.work = s.committed)
      (houtside : s'.outside = s.outside) :
      (executeQuery E ("INSERT INTO Messages (payload) VALUES (" ++
        E.dialect.quoteString message ++ ")")).run.run s' =
      (.ok .inserted, ⟨s'.committed, db, s.outside + 1, s'.calls + 1⟩) := by
    refine Sql.run_call (hfaults _) (Sql.run_statement ?_)
    rw [E.dialect.parse_insert, hwork, houtside]
    exact hexecute
  refine Sql.run_tryCatch (u := ⟨db, db, s.outside + 1, s.calls + 5⟩) ?_
  refine Sql.run_bind (Sql.run_call (hfaults _) rfl) ?_
  refine Sql.run_bind (Sql.run_call (hfaults _) rfl) ?_
  refine Sql.run_bind (a := .pgSuccess) (u := ⟨s.committed, db, s.outside + 1, s.calls + 4⟩) ?_ ?_
  · rw [if_neg (not_not.2 rfl)]
    refine Sql.run_bind (Sql.run_call (hfaults _) rfl) ?_
    exact Sql.run_bind (hquery rfl rfl) rfl
  · exact Sql.run_bind (Sql.run_call (hfaults _) rfl) rfl

/-- The database without rows. -/
def Database.empty : Database where
  exchanges := []
  messages := []
  exchangeKey := List.nodup_nil
  exchangeNames := List.nodup_nil
  messageKey := List.nodup_nil
  references := by simp
  payloads := Database.payloads_nil

/-- A dialect without faults. -/
def Environment.faultless (D : Dialect) : Environment := ⟨D, fun _ => none, fun _ => "now"⟩

/-- The standard dialect, without faults. -/
def standardEnvironment : Environment := .faultless .standard

/-- A connection to the empty database. -/
def emptyConnection : Connection := { committed := .empty, work := .empty, outside := 1 }

theorem persist_run_empty {D : Dialect} {message stored : String}
    (h : D.stores message = some stored) :
    ∃ s, (pgMessagePersist (.faultless D) message "").run.run emptyConnection =
      (.ok .pgSuccess, s) ∧ s.committed.messages = [⟨1, some stored, none, some "now"⟩] := by
  have hadmits : Database.empty.Admits ⟨1, some stored, none, some "now"⟩ := by
    simpa [Database.Admits, Database.empty] using Sql.length_of_varchar h
  exact ⟨_, persist_run (fun _ => rfl) (by simp [emptyConnection]) h (dif_pos hadmits), rfl⟩

/-- As many characters as a payload may have. -/
def longPayload : String := String.ofList (List.replicate 255 'a')

theorem toList_longPayload : longPayload.toList = List.replicate 255 'a' := by
  unfold longPayload
  exact String.toList_ofList

theorem length_longPayload : longPayload.length = 255 := by
  rw [← String.length_toList, toList_longPayload, List.length_replicate]

/-- A space after them is cut. -/
theorem stores_longPayload (D : Dialect) : D.stores (longPayload ++ " ") = some longPayload := by
  have hzero : '\x00' ∉ (longPayload ++ " ").toList := by
    rw [String.toList_append, toList_longPayload, List.mem_append, List.mem_replicate]
    simp
  rw [Dialect.stores, D.denoted_eq _ hzero]
  exact Sql.varchar_append_space length_longPayload

/-! ### The status -/

/-- **The status is exact**: it is a success if and only if one row was added, with what the column
stores for the message and the ID of the exchange, and an error if and only if nothing was
changed. -/
theorem persist_exact (E : Environment) (message exchange : String) (s : Connection) :
    ∃ status s', (pgMessagePersist E message exchange).run.run s = (.ok status, s') ∧
      (status = .pgSuccess ↔ s.committed.Persisted (E.dialect.stores message)
        (E.dialect.named exchange) s'.committed) ∧
      (status = .pgError ↔ s'.committed = s.committed) := by
  obtain ⟨status, s', hrun, hresult, -⟩ := exists_persist E message exchange s
  refine ⟨status, s', hrun, ?_⟩
  cases status with
  | pgSuccess => exact ⟨iff_of_true rfl hresult, iff_of_false (by simp) hresult.ne⟩
  | pgError =>
    exact ⟨iff_of_false (by simp) fun h => Database.Persisted.ne h hresult, iff_of_true rfl hresult⟩

/-- The row does not carry the message itself when a space of it is cut. -/
theorem persist_cuts_spaces : ¬ ∀ (E : Environment) (message exchange : String) (s : Connection),
    ∃ status s', (pgMessagePersist E message exchange).run.run s = (.ok status, s') ∧
      (status = .pgSuccess ↔
        s.committed.Persisted (some message) (exchangeName exchange) s'.committed) ∧
      (status = .pgError ↔ s'.committed = s.committed) := by
  intro h
  obtain ⟨s₁, hrun₁, hmessages₁⟩ := persist_run_empty (stores_longPayload .standard)
  obtain ⟨status, s', hrun, hsuccess, -⟩ := h standardEnvironment (longPayload ++ " ") ""
    emptyConnection
  rw [standardEnvironment, hrun₁, Prod.mk.injEq, Except.ok.injEq] at hrun
  obtain ⟨rfl, rfl⟩ := hrun
  obtain ⟨row, hrow, -, -, -, -, hmessages⟩ := hsuccess.1 rfl
  have heq : row = ⟨1, some longPayload, none, some "now"⟩ := by
    simpa [emptyConnection, Database.empty, hmessages₁, eq_comm] using hmessages
  rw [heq, Option.some.injEq] at hrow
  simpa using congrArg String.length hrow

end Comyno.Pg
