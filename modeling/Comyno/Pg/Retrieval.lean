import Comyno.Pg.History
import Comyno.Pg.Completion

/-!
# Persisting and querying

The messages that a history of calls of `pgMessagePersist` has persisted are the ones that a later
`pgMessageQuery` hands to its callback.  The two operations name the exchange independently: a row
refers to it by the ID that the writer has looked up, or by none for `""`, and the reader selects
by the ID that it has looked up itself, or by the ID `-1`, which stands for all.  Both look it up
under the name that the literal of `quoteString` stands for.

## Main results

* `Ticket.retrieved` : what a query that the database answers has come to, in every state.
* `persist_query_roundtrip` : so it is after every history, and every such query can be completed.
* `query_cuts_spaces` : the callback gets what the column stores, which need not be the message.
-/

namespace Comyno.Pg

open Conc

/-- The messages carry what has been stored for the exchange, in any order; `column` says what is
stored for a message. -/
def Delivers (D : Dialect) (column : String → Option String) (log : List PersistCall)
    (exchange : String) (messages : List Message) : Prop :=
  (messages.map fun m => some m.payload).Perm
    ((visible D log exchange).map fun call => column call.message)

/-- What a query has come to: for a known exchange, or for all, its callback gets the stored
messages; for an unknown one it is not called. -/
structure Retrieved (D : Dialect) (column : String → Option String) (db : Database)
    (log : List PersistCall) (s : State) (k : ℕ) (R : Record) : Prop where
  known : R.exchange = "" ∨ db.Knows (D.denoted R.exchange) → R.result ≠ some .pgError ∧
    (s.calls k = [] ∨ ∃ messages, s.calls k = [messages] ∧
      Delivers D column log R.exchange messages) ∧
    (R.result = some .pgSuccess → ¬ s.Pending k → s.calls k ≠ [])
  unknown : R.exchange ≠ "" → ¬ db.Knows (D.denoted R.exchange) →
    R.result ≠ some .pgSuccess ∧ s.calls k = []

variable {D : Dialect} {db : Database} {log : List PersistCall} {k : ℕ} {s : State} {R : Record}

/-! ### What the callback gets -/

/-- The lookup is the one of the query's own exchange. -/
theorem Record.Informed.exchangeIds (h : R.Informed D db) {str : String} {r : List ℤ}
    (hstr : R.literal = some str) (hr : R.lookup = some (exchangeQuery str, r)) :
    r = db.exchangeIds (D.denoted R.exchange) := by
  obtain ⟨name, hparse, hids⟩ := h.lookup _ _ hr
  rw [h.literal _ hstr] at hparse
  have hname := (D.parse_exchangeIds R.exchange).symm.trans hparse
  rw [hids, Statement.exchangeIds.inj (Option.some.inj hname)]

/-- The task of a query for a known exchange has the ID of the exchange. -/
theorem Record.Informed.exists_exchange (h : R.Informed D db) (hne : R.exchange ≠ "") {i : ℤ}
    (hi : R.Identifies i) :
    ∃ x ∈ db.exchanges, x.exchangeName = some (D.denoted R.exchange) ∧ i = x.id := by
  rw [Record.Identifies, if_neg hne] at hi
  obtain ⟨str, ids, hstr, hids⟩ := hi
  have href : db.Refers (some i) (some (D.denoted R.exchange)) := by
    refine Database.refers_of_head ?_
    rw [← h.exchangeIds hstr hids]
    rfl
  obtain ⟨x, hx, hname, hid⟩ := href
  exact ⟨x, hx, hname, Option.some.inj hid⟩

/-- Reading a row keeps its payload. -/
theorem payload_of_reads {rows : List MessageRow} {r : List Message}
    (h : List.Forall₂ MessageRow.Reads rows r) :
    (r.map fun m => some m.payload) = rows.map MessageRow.payload := by
  rw [← List.forall₂_eq_eq_eq, List.forall₂_map_left_iff, List.forall₂_map_right_iff]
  exact h.flip.imp fun m row hrow => hrow.payload.symm

/-- What the query of a task returns. -/
theorem Dialect.Answers.perm {task : Task} {r : List Message}
    (h : D.Answers db task.query (.messages r)) :
    (r.map fun m => some m.payload).Perm
      ((db.select (if task.exchangeID = -1 then none else some task.exchangeID)).map
        MessageRow.payload) := by
  obtain ⟨e, rows, hparse, hperm, hreads⟩ := h
  rw [D.parse_query] at hparse
  cases hparse
  rw [payload_of_reads hreads]
  exact hperm.map _

section Retrieved

variable (hstored : List.Forall₂ (db.Stores D) (successes log) db.messages)
  (hserial : ∀ x ∈ db.exchanges, 1 ≤ x.id)

include hstored hserial

/-- What the task of a query selects is what has been stored for its exchange. -/
theorem Record.Informed.delivers (h : R.Informed D db) {task : Task} {messages : List Message}
    (hid : R.Identifies task.exchangeID) (hsel : R.select = some (task.query, messages)) :
    Delivers D D.stores log R.exchange messages := by
  have hperm := (h.select _ _ hsel).perm
  by_cases hne : R.exchange = ""
  · rw [Record.Identifies, if_pos hne] at hid
    rw [if_pos hid, select_all_eq hstored] at hperm
    rw [Delivers, hne]
    exact hperm
  · obtain ⟨x, hx, hname, hxid⟩ := h.exists_exchange hne hid
    have hall : task.exchangeID ≠ -1 := by
      have := hserial x hx
      omega
    rw [if_neg hall, hxid, select_eq hstored hx hname hne] at hperm
    exact hperm

/-- **The record of a query that the database answers** says what it has come to. -/
theorem Ticket.retrieved (ht : Ticket s k R) (h : R.Informed D db) :
    Retrieved D D.stores db log s k R := by
  have hacc := accounted_of_ticket ht
  constructor
  · intro hknown
    refine ⟨fun herror => ?_, ?_, fun hsuccess hk hnil => ?_⟩
    · obtain ⟨hne, str, hstr, hlookup⟩ := h.error herror
      exact Database.exchangeIds_eq_nil_iff.1 (h.exchangeIds hstr hlookup).symm
        (hknown.resolve_left hne)
    · refine hacc.called.imp_right ?_
      rintro ⟨task, messages, -, hid, hsel, hcalls⟩
      exact ⟨messages, hcalls, h.delivers hstored hserial hid hsel⟩
    · obtain ⟨task, hqueued, -⟩ := hacc.success hsuccess
      have := (ht.length_calls_iff hk (by simp [hqueued])).2 h.failed
      simp [hnil] at this
  · intro hne hunknown
    have hno : ∀ i, ¬ R.Identifies i := by
      intro i hi
      obtain ⟨x, hx, hname, -⟩ := h.exists_exchange hne hi
      exact hunknown ⟨x, hx, hname⟩
    refine ⟨fun hsuccess => ?_, ?_⟩
    · obtain ⟨task, -, -, hid⟩ := hacc.success hsuccess
      exact hno _ hid
    · rcases hacc.called with hnil | ⟨task, messages, -, hid, -⟩
      · exact hnil
      · exact absurd hid (hno _)

end Retrieved

/-! ### What the task gets -/

/-- Rows without `NULL` can be read. -/
theorem exists_reads {rows : List MessageRow}
    (h : ∀ row ∈ rows, row.payload.isSome ∧ row.createdAt.isSome) :
    ∃ r, List.Forall₂ MessageRow.Reads rows r := by
  induction rows with
  | nil => exact ⟨[], .nil⟩
  | cons row rows ih =>
    obtain ⟨⟨hpayload, htime⟩, hrest⟩ := List.forall_mem_cons.1 h
    obtain ⟨payload, hpayload⟩ := Option.isSome_iff_exists.1 hpayload
    obtain ⟨timestamp, htime⟩ := Option.isSome_iff_exists.1 htime
    obtain ⟨r, hr⟩ := ih hrest
    exact ⟨⟨row.id, payload, timestamp⟩ :: r, .cons ⟨rfl, hpayload, htime⟩ hr⟩

/-- The database has an answer to the query of a task. -/
theorem exists_answer (hstored : List.Forall₂ (db.Stores D) (successes log) db.messages)
    (task : Task) : ∃ messages, D.Answers db task.query (.messages messages) := by
  have hrows : ∀ row ∈ db.messages, row.payload.isSome ∧ row.createdAt.isSome := by
    intro row hrow
    obtain ⟨call, -, h⟩ := exists_of_stores hstored hrow
    exact ⟨h.payload_isSome, h.createdAt⟩
  obtain ⟨r, hr⟩ := exists_reads fun row hrow => hrows row (Database.mem_of_mem_select hrow)
  exact ⟨r, _, _, D.parse_query task, .refl _, hr⟩

/-! ### After a history -/

/-- Queries return what has been persisted: every state of a run in which one is served says so, and
every such run can complete it. -/
structure RoundTrip (column : String → Option String) (D : Dialect) (db : Database)
    (log : List PersistCall) : Prop where
  retrieved : ∀ k s A, Served D db k (s, A) → Retrieved D column db log s k (A k)
  completes : ∀ k s A, Served D db k (s, A) → (A k).stage ≠ .notCalled →
    CanServe D db k (s, A) fun p =>
      (p.2 k).exchange = (A k).exchange ∧ (p.2 k).result ≠ none ∧ ¬ p.1.Pending k

theorem roundTrip_of_stored (hstored : List.Forall₂ (db.Stores D) (successes log) db.messages)
    (hserial : ∀ x ∈ db.exchanges, 1 ≤ x.id) : RoundTrip D.stores D db log where
  retrieved k _ _ h := (h.tickets.ticket k).retrieved hstored hserial h.informed
  completes _ _ _ h hR := exists_completed h hR (exists_answer hstored)

/-- **Persist, then query.**  Whatever history of calls of `pgMessagePersist` fills the empty table
`Messages`, and whichever of their calls of the connector throw, the queries that are then served
return what the successful calls have stored. -/
theorem persist_query_roundtrip (E : Environment) (calls : List (String × String))
    (s₀ : Connection) (hempty : s₀.committed.messages = [])
    (hserial : ∀ x ∈ s₀.committed.exchanges, 1 ≤ x.id) :
    ∃ log s₁, (persistAll E calls).run.run s₀ = (.ok log, s₁) ∧
      log.map (fun call => (call.message, call.exchange)) = calls ∧
      RoundTrip E.dialect.stores E.dialect s₁.committed log := by
  obtain ⟨log, s₁, rows, hrun, hlog, hexchanges, hmessages, hrows⟩ := exists_persistAll E calls s₀
  refine ⟨log, s₁, hrun, hlog, roundTrip_of_stored ?_ (hexchanges ▸ hserial)⟩
  rw [hmessages, hempty, List.nil_append]
  exact hrows.imp fun _ _ h => h.congr hexchanges.symm

/-- A history on the database that `init.sql` creates. -/
theorem persist_query_roundtrip_initial :
    ∃ log s₁, (persistAll standardEnvironment
        [("hello", "send-queue"), ("lost", "nowhere"), ("bye", "")]).run.run
          { committed := .initial, work := .initial, outside := 1 } = (.ok log, s₁) ∧
      log.map (fun call => (call.message, call.exchange)) =
        [("hello", "send-queue"), ("lost", "nowhere"), ("bye", "")] ∧
      RoundTrip Dialect.standard.stores .standard s₁.committed log :=
  persist_query_roundtrip standardEnvironment _ _ rfl (by decide)

/-- Two columns that both describe what queries return agree on what has been persisted. -/
theorem RoundTrip.perm {column column' : String → Option String} (h : RoundTrip column D db log)
    (h' : RoundTrip column' D db log) :
    ((visible D log "").map fun call => column call.message).Perm
      ((visible D log "").map fun call => column' call.message) := by
  -- a query for all messages is made, and completed
  have hcall : Serves D db 0 State.init (.call (.app 0) (.pgMessageQuery 0 true "")) :=
    ⟨⟨by simp [CallbacksReturn], by simp [AppDestroys], by simp⟩, by simp, by simp, by simp⟩
  have hserved : Served D db 0 _ := Served.step (.refl _) hcall rfl
  have hstage : (account (fun _ => {}) State.init (.call (.app 0) (.pgMessageQuery 0 true ""))
      (State.init.call (.app 0) (.pgMessageQuery 0 true "")) 0).stage = .calling (.app 0) := rfl
  obtain ⟨⟨s, A⟩, hr, hexchange, hresult, hpending⟩ := h.completes 0 _ _ hserved (by simp [hstage])
  have hs : Served D db 0 (s, A) := Machine.ReachableWhere.trans hserved hr
  have hall : (A 0).exchange = "" := hexchange
  obtain ⟨hnoerror, hcalls, hcalled⟩ := (h.retrieved 0 s A hs).known (Or.inl hall)
  obtain ⟨-, hcalls', -⟩ := (h'.retrieved 0 s A hs).known (Or.inl hall)
  have hsuccess : (A 0).result = some .pgSuccess := by
    obtain ⟨st, hst⟩ := Option.ne_none_iff_exists'.1 hresult
    cases st with
    | pgSuccess => exact hst
    | pgError => exact absurd hst hnoerror
  have hne := hcalled hsuccess hpending
  obtain ⟨messages, hmessages, hdelivers⟩ := hcalls.resolve_left hne
  obtain ⟨messages', hmessages', hdelivers'⟩ := hcalls'.resolve_left hne
  obtain rfl : messages = messages' := by simpa [hmessages] using hmessages'
  rw [hall] at hdelivers hdelivers'
  exact hdelivers.symm.trans hdelivers'

/-- Every literal stands for the text that was quoted. -/
def exactDialect : Dialect := .doubling id fun _ _ => rfl

/-- The callback does not get the message itself when a space of it is cut. -/
theorem query_cuts_spaces : ¬ ∀ (E : Environment) (calls : List (String × String))
    (s₀ : Connection), (∀ str, E.dialect.denoted str = str) → s₀.committed.messages = [] →
    (∀ x ∈ s₀.committed.exchanges, 1 ≤ x.id) →
    ∃ log s₁, (persistAll E calls).run.run s₀ = (.ok log, s₁) ∧
      log.map (fun call => (call.message, call.exchange)) = calls ∧
      RoundTrip some E.dialect s₁.committed log := by
  intro h
  obtain ⟨s₂, hrun, -⟩ := persist_run_empty (stores_longPayload exactDialect)
  have hall : (persistAll (.faultless exactDialect) [(longPayload ++ " ", "")]).run.run
      emptyConnection =
      (.ok [⟨longPayload ++ " ", "", .pgSuccess⟩], s₂) :=
    Sql.run_bind hrun (Sql.run_bind rfl rfl)
  have hserial : ∀ x ∈ emptyConnection.committed.exchanges, 1 ≤ x.id := by
    simp [emptyConnection, Database.empty]
  obtain ⟨log, s₁, hrun₁, -, hround⟩ := h (.faultless exactDialect) [(longPayload ++ " ", "")]
    emptyConnection (fun _ => rfl) rfl hserial
  obtain ⟨log', s', rows, hrun', -, hexchanges, hmessages, hrows⟩ :=
    exists_persistAll (.faultless exactDialect) [(longPayload ++ " ", "")] emptyConnection
  rw [hall, Prod.mk.injEq, Except.ok.injEq] at hrun₁ hrun'
  obtain ⟨rfl, rfl⟩ := hrun₁
  obtain ⟨rfl, rfl⟩ := hrun'
  have hstored : RoundTrip exactDialect.stores exactDialect s₂.committed
      [⟨longPayload ++ " ", "", .pgSuccess⟩] := by
    refine roundTrip_of_stored ?_ (hexchanges ▸ hserial)
    rw [hmessages]
    exact hrows.imp fun _ _ h => h.congr hexchanges.symm
  have hperm := hstored.perm hround
  have hlength : longPayload = longPayload ++ " " := by
    simpa [visible, successes, stores_longPayload] using hperm
  simpa using congrArg String.length hlength

end Comyno.Pg
