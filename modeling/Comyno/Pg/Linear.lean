import Comyno.Conc.Snapshot
import Comyno.Pg.Retrieval

/-!
# Queries while messages are persisted

So far a query ran against a database that nobody else writes.  Here any number of threads call
`pgMessagePersist` while any number of queries are queued and executed.

## The model

* The transaction of a call of `pgMessagePersist` takes effect at once, when it ends; the call
  returns later.
* `executeQuery` reads what is committed at the moment.  In `queryExchange` this is the only
  statement of its transaction that reads, so isolation adds nothing but exceptions.
* Any call of the connector may throw.  A commit that throws is taken to have no effect: that it may
  have stored its row all the same is left out.
* `Exchanges` is written by nobody.

## Main definitions

* `service` : the clients with the database that they share.
* `Service.Consults` : the connector returns what the database says, or throws.
* `Service.Sound` : the invariant.

## Main results

* `Service.Sound.select_step` : a query selects what is committed at the moment.
* `queries_linearizable` : a query whose callback was called has seen the calls of
  `pgMessagePersist` up to one moment between its own call and that of the callback.
-/

namespace Comyno.Pg

open Conc

/-! ### The clients and their database -/

/-- The clients, with the records of their queries, and the database. -/
structure Service where
  queries : State × (ℕ → Record) := (State.init, fun _ => {})
  connection : Connection
  /-- The calls of `pgMessagePersist`, in the order in which their transactions have ended. -/
  log : List PersistCall := []

/-- The labels of the machine. -/
inductive ServiceLabel where
  /-- The transaction of a call of `pgMessagePersist` ends. -/
  | persist (message exchange : String)
  | query (l : Label)
  deriving DecidableEq, Repr

namespace Service

variable (s : Service)

/-- The state of the clients. -/
abbrev state : State := s.queries.1

/-- What is recorded of the query `k`. -/
abbrev record (k : ℕ) : Record := s.queries.2 k

/-- One step of the service. -/
def step (E : Environment) (s : Service) : ServiceLabel → Option Service
  | .persist message exchange =>
    match (pgMessagePersist E message exchange).run.run s.connection with
    | (.ok status, c) =>
      some { s with connection := c, log := s.log ++ [⟨message, exchange, status⟩] }
    -- no exception leaves `pgMessagePersist`
    | (.error _, _) => none
  | .query l => (accounted.step s.queries l).map fun q => { s with queries := q }

/-- Nothing has happened yet. -/
def start (c : Connection) : Service := { connection := c }

end Service

/-- **The clients with their database as a machine.** -/
def service (E : Environment) : Machine Service ServiceLabel := ⟨Service.step E⟩

/-- Callbacks return; a call of the connector throws, or returns what is committed. -/
structure Consults (D : Dialect) (db : Database) (s : State) (l : Label) : Prop where
  returns : CallbacksReturn s l
  query : ∀ t x pc q, l = .exec t x → s.frame t = .query pc q →
    x = .throw ∨ D.ServesQuery db q pc x
  task : ∀ w x y, l = .work w (.task (.connector x)) → s.pc w = .run y →
    x = .throw ∨ D.ServesTask db y.task y.pc x

/-- The connector gets its results from the database that is shared. -/
def Service.Consults (D : Dialect) (s : Service) : ServiceLabel → Prop
  | .persist _ _ => True
  | .query l => Pg.Consults D s.connection.committed s.state l

/-- The steps of the machine. -/
inductive ServiceStep (D : Dialect) (s : Service) : ServiceLabel → Service → Prop
  | persist {message exchange : String} {status : PGStatus} {c : Connection} :
      PersistResult D s.connection.committed message exchange status c.committed →
      ServiceStep D s (.persist message exchange)
        { s with connection := c, log := s.log ++ [⟨message, exchange, status⟩] }
  | query {l : Label} {s' : State} : Step s.state l s' →
      ServiceStep D s (.query l) { s with queries := (s', account s.queries.2 s.state l s') }

/-- **The list of steps is complete.** -/
theorem service_step_cases {E : Environment} {s s' : Service} {l : ServiceLabel}
    (h : (service E).step s l = some s') : ServiceStep E.dialect s l s' := by
  change s.step E l = some s' at h
  cases l with
  | persist message exchange =>
    obtain ⟨status, c, hrun, hresult, -⟩ := exists_persist E message exchange s.connection
    simp only [Service.step, hrun] at h
    cases h
    exact .persist hresult
  | query l =>
    obtain ⟨⟨s', A⟩, hq, rfl⟩ := Option.map_eq_some_iff.1 h
    obtain ⟨hst, hA⟩ := Machine.observe_step_eq_some_iff.1 hq
    obtain rfl : A = account s.queries.2 s.state l s' := hA
    exact .query (step_cases hst).2

/-! ### What is recorded of a query -/

section Record

variable {D : Dialect} {db db' : Database} {s s' : State} {l : Label} {k : ℕ} {R : Record}

/-- What the lookup of the exchange has returned comes from the database. -/
structure Record.Looked (D : Dialect) (db : Database) (R : Record) : Prop where
  literal : ∀ str, R.literal = some str → str = D.quoteString R.exchange
  lookup : ∀ query r, R.lookup = some (query, r) → D.Answers db query (.ids r)

theorem Record.Looked.init : Record.Looked D db {} :=
  ⟨fun _ h => (by cases h), fun _ _ h => (by cases h)⟩

/-- IDs of exchanges depend on the table `Exchanges` only. -/
theorem Dialect.answers_ids_congr (h : db'.exchanges = db.exchanges) {query : String} {r : List ℤ} :
    D.Answers db' query (.ids r) ↔ D.Answers db query (.ids r) := by
  simp only [Dialect.Answers, Database.exchangeIds, h]

/-- A record that says the same of the lookup. -/
theorem Record.Looked.congr {R' : Record} (h : R.Looked D db) (hexchange : R'.exchange = R.exchange)
    (hliteral : R'.literal = R.literal) (hlookup : R'.lookup = R.lookup) : R'.Looked D db :=
  ⟨fun str hstr => hexchange ▸ h.literal str (hliteral ▸ hstr),
    fun query r hr => h.lookup query r (hlookup ▸ hr)⟩

/-- A step of the call. -/
theorem Record.Looked.query (h : R.Looked D db) (ht : Ticket s k R) {t : Thread} {pc : QueryPc}
    {q : Query} {x : Outcome} {f : Frame} (hf : s.frame t = .query pc q) (hq : q.ticket = k)
    (hst : QueryStep q pc x f) (hserve : x = .throw ∨ D.ServesQuery db' q pc x)
    (hdb : db'.exchanges = db.exchanges) : (R.exec q pc x f).Looked D db := by
  have hpc : pc ≠ .notify := by
    rintro rfl
    cases hst.usesConnector
  obtain ⟨-, ⟨callback, rfl⟩, -⟩ := ht.calling hf hq hpc
  cases hst with
  | @quoteString str =>
    refine ⟨fun str' hstr => ?_, h.lookup⟩
    obtain rfl := Option.some.inj hstr
    exact Outcome.quoted.inj (hserve.resolve_left (by simp))
  | @executeQuery query r =>
    refine ⟨h.literal, fun query' r' hr => ?_⟩
    obtain ⟨rfl, rfl⟩ : query = query' ∧ r = r' := by simpa [Record.exec] using hr
    exact (Dialect.answers_ids_congr hdb).1 (hserve.resolve_left (by simp))
  | throw => cases pc <;> exact ⟨h.literal, h.lookup⟩
  | _ => exact ⟨h.literal, h.lookup⟩

/-- Nothing is looked up by a task. -/
theorem Record.Looked.task (h : R.Looked D db) {x : Execution} {a : TaskAct}
    {pc : LoopPc Execution} : (R.task x a pc).Looked D db := by
  unfold Record.task Record.connector
  split <;> split <;> exact ⟨h.literal, h.lookup⟩

/-- **A step for the query** looks up what the database says. -/
theorem Record.Looked.step (h : R.Looked D db) (ht : Ticket s k R)
    (hfresh : k = s.next → R.stage = .notCalled) (hl : Consults D db' s l)
    (hdb : db'.exchanges = db.exchanges) (hst : Step s l s') (hk : s.ticket l = some k) :
    (R.note s l s').Looked D db := by
  cases hst with
  | loop | notifyOne | notifyNobody => exact h.congr rfl rfl rfl
  | task _ hx =>
    simp only [Record.note, hx]
    exact h.task
  | callQuery =>
    obtain rfl : s.next = k := by simpa [State.ticket] using hk
    have hloc := ht.located
    simp only [State.Located, hfresh rfl] at hloc
    obtain ⟨rfl, -⟩ := hloc
    exact ⟨by simp [Record.note], by simp [Record.note]⟩
  | query hf hq =>
    simp only [State.ticket, hf, Option.some.injEq] at hk
    simp only [Record.note, hf, State.goto_frame_self]
    exact h.query ht hf hk hq (hl.query _ _ _ _ rfl hf) hdb
  | enqueue hf | push hf | pushStopped hf =>
    simp only [Record.note, hf, State.goto_frame_self, Record.exec]
    exact h.congr rfl rfl rfl
  | callDestructor => simp [State.ticket] at hk
  | dtorLock hf | dtorStop hf | dtorNotify hf | dtorJoin hf | dtorJoinThrow hf | dtorDone hf =>
    simp [State.ticket, hf] at hk

theorem Record.exec_select {q : Query} {pc : QueryPc} {x : Outcome} {f : Frame} :
    (R.exec q pc x f).select = R.select := by
  unfold Record.exec
  split <;> rfl

/-- **The rows that a query selects**: a step for the query either selects none, or records what
`executeQuery` has returned to its task. -/
theorem Step.note_select (h : Step s l s') (hk : s.ticket l = some k) :
    (R.note s l s').select = R.select ∨ ∃ w x messages,
      l = .work w (.task (.connector (.messages messages))) ∧ s.pc w = .run x ∧
        x.pc = .executeQuery ∧ (R.note s l s').select = some (x.task.query, messages) := by
  cases h with
  | loop | callQuery | notifyOne | notifyNobody => exact Or.inl rfl
  | @task w a _ x m pc _ hx _ htask =>
    simp only [Record.note, hx]
    cases htask with
    | executeQuery hpc =>
      refine Or.inr ⟨w, x, _, rfl, hx, hpc, ?_⟩
      simp [Record.task, Record.connector, hpc]
    | _ =>
      left
      simp [Record.task, Record.connector, *]
  | query hf | enqueue hf | push hf | pushStopped hf =>
    simp only [Record.note, hf]
    exact Or.inl Record.exec_select
  | callDestructor => simp [State.ticket] at hk
  | dtorLock hf | dtorStop hf | dtorNotify hf | dtorJoin hf | dtorJoinThrow hf | dtorDone hf =>
    simp [State.ticket, hf] at hk

/-- A query whose callback was called has not failed. -/
theorem Ticket.failed_eq_false (h : Ticket s k R) (hcalls : s.calls k ≠ []) : R.failed = false := by
  have hloc := h.located
  unfold State.Located at hloc
  split at hloc
  · exact absurd hloc.2 hcalls
  · exact hloc.2.2.2.1
  · exact absurd hloc.2.2 hcalls
  · exact hloc.2.1
  · exact hloc.2.1
  · obtain ⟨task, -, hC⟩ := hloc
    unfold Record.Completed at hC
    split at hC
    · exact absurd hC hcalls
    · exact eq_false_of_ne_true ‹_›

end Record

/-! ### The invariant -/

/-- The rows are those of the calls logged, and what was looked up comes from the database. -/
structure Service.Sound (D : Dialect) (db : Database) (s : Service) : Prop where
  tickets : Tickets s.state s.queries.2
  stored : db.ExtendsTo D s.log s.connection.committed
  looked : ∀ k, (s.record k).Looked D db

section Service

variable {E : Environment} {D : Dialect} {c : Connection} {db : Database} {s s' : Service}
  {l : ServiceLabel}

theorem Service.Sound.init (D : Dialect) (c : Connection) : Sound D c.committed (.start c) where
  tickets := .init
  stored := .nil _ _
  looked _ := .init

/-- **Every step keeps the invariant.** -/
theorem Service.Sound.step (h : s.Sound D db) (hl : s.Consults D l) (hst : ServiceStep D s l s') :
    s'.Sound D db := by
  cases hst with
  | persist hp => exact ⟨h.tickets, h.stored.persist hp, h.looked⟩
  | @query l s' hst =>
    refine ⟨h.tickets.step hl.returns hst, h.stored, fun k => ?_⟩
    change (account s.queries.2 s.state l s' k).Looked D db
    by_cases hk : s.state.ticket l = some k
    · rw [account_self hk]
      exact (h.looked k).step (h.tickets.ticket k) (fun e => h.tickets.fresh k e.ge) hl
        h.stored.1 hst hk
    · rw [account_of_ne hk]
      exact h.looked k

theorem sound_of_reachable
    (h : (service E).ReachableWhere (Service.Consults E.dialect) (.start c) s) :
    s.Sound E.dialect c.committed :=
  h.invariant (.init _ c) fun _ _ _ hs hl hst => hs.step hl (service_step_cases hst)

/-- No call is removed from the log. -/
theorem ServiceStep.log_grows (h : ServiceStep D s l s') : s.log <+: s'.log := by
  cases h with
  | persist => exact List.prefix_append _ _
  | query => exact List.prefix_rfl

/-- What the calls of a log have left answers the query. -/
def Selected (D : Dialect) (db : Database) (log : List PersistCall)
    (select : String × List Message) : Prop :=
  ∃ db', db.ExtendsTo D log db' ∧ D.Answers db' select.1 (.messages select.2)

/-- **A query selects what is committed at the moment.** -/
theorem Service.Sound.select_step (h : s.Sound D db) (hl : s.Consults D l)
    (hst : ServiceStep D s l s') (k : ℕ) : (s'.record k).select = (s.record k).select ∨
      ∀ select, (s'.record k).select = some select → Selected D db s.log select := by
  cases hst with
  | persist => exact Or.inl rfl
  | @query l s' hst =>
    change (account s.queries.2 s.state l s' k).select = _ ∨
      ∀ select, (account s.queries.2 s.state l s' k).select = some select → _
    by_cases hk : s.state.ticket l = some k
    · rw [account_self hk]
      refine (hst.note_select hk).imp_right ?_
      rintro ⟨w, x, messages, rfl, hx, hpc, hnote⟩ select hsel
      obtain rfl := Option.some.inj (hnote.symm.trans hsel)
      have hserve := (hl.task w _ x rfl hx).resolve_left (by simp)
      rw [hpc] at hserve
      exact ⟨s.connection.committed, h.stored, hserve⟩
    · rw [account_of_ne hk]
      exact Or.inl rfl

/-! ### What queries see -/

/-- **What a query has selected** was stored at one moment, after the query was entered. -/
theorem exists_selected {s₀ : Service}
    (h₀ : (service E).ReachableWhere (Service.Consults E.dialect) (.start c) s₀)
    (h : (service E).ReachableWhere (Service.Consults E.dialect) s₀ s) {k : ℕ}
    (hk : s₀.state.next ≤ k) {select : String × List Message}
    (hsel : (s.record k).select = some select) :
    ∃ log, s₀.log <+: log ∧ log <+: s.log ∧ Selected E.dialect c.committed log select := by
  -- it has selected nothing before
  have hnone : (s₀.record k).select = none := by
    have htickets := (sound_of_reachable h₀).tickets
    have hloc := (htickets.ticket k).located
    simp only [State.Located, htickets.fresh k hk] at hloc
    exact congrArg Record.select hloc.1
  refine h.exists_moment (fun s => (s.record k).select) (I := Service.Sound E.dialect c.committed)
    (fun s hr => sound_of_reachable (h₀.trans hr)) ?_ ?_ hnone hsel
  · exact fun _ _ _ _ _ hst => (service_step_cases hst).log_grows
  · exact fun _ _ _ hs hl hst => hs.select_step hl (service_step_cases hst) k

end Service

/-- **Queries are linearizable.**  The table `Messages` is empty at the start, the state `s` is
reached from `s₀`, and a query is entered after `s₀` whose callback has been called in `s`.  Then
the query was for a known exchange or for all, and there is one moment between `s₀` and `s` such
that the callback got the messages that had been stored for the exchange then, whatever the other
threads were persisting, and in whatever order the queries were executed. -/
theorem queries_linearizable (E : Environment) (c : Connection)
    (hempty : c.committed.messages = []) (hserial : ∀ x ∈ c.committed.exchanges, 1 ≤ x.id)
    {s₀ s : Service} (h₀ : (service E).ReachableWhere (Service.Consults E.dialect) (.start c) s₀)
    (h : (service E).ReachableWhere (Service.Consults E.dialect) s₀ s) {k : ℕ}
    {messages : List Message} (hk : s₀.state.next ≤ k) (hcall : messages ∈ s.state.calls k) :
    c.committed.ExtendsTo E.dialect s.log s.connection.committed ∧
    ((s.record k).exchange = "" ∨ c.committed.Knows (E.dialect.denoted (s.record k).exchange)) ∧
    ∃ log, s₀.log <+: log ∧ log <+: s.log ∧
      Delivers E.dialect E.dialect.stores log (s.record k).exchange messages := by
  have hsound := sound_of_reachable (h₀.trans h)
  have ht := hsound.tickets.ticket k
  have hacc := accounted_of_ticket ht
  have hcalls := List.ne_nil_of_mem hcall
  obtain ⟨task, r, -, hid, hsel, hr⟩ := hacc.called.resolve_left hcalls
  obtain rfl : messages = r := by simpa [hr] using hcall
  obtain ⟨log, hfirst, hlog, db', hdb, hans⟩ := exists_selected h₀ h hk hsel
  have hinformed : (s.record k).Informed E.dialect db' := by
    refine ⟨(hsound.looked k).literal, fun query ids hids => ?_, fun query r hr => ?_,
      ht.failed_eq_false hcalls, fun herror => absurd (hacc.error herror).2 hcalls⟩
    · exact (Dialect.answers_ids_congr hdb.1).2 ((hsound.looked k).lookup query ids hids)
    · cases hsel.symm.trans hr
      exact hans
  refine ⟨hsound.stored, ?_, log, hfirst, hlog,
    hinformed.delivers (hdb.stored hempty) (hdb.1 ▸ hserial) hid hsel⟩
  by_cases hne : (s.record k).exchange = ""
  · exact Or.inl hne
  · obtain ⟨x, hx, hname, -⟩ := hinformed.exists_exchange hne hid
    exact Or.inr ⟨x, hdb.1 ▸ hx, hname⟩

/-! ### A query between two calls -/

section Run

variable {D : Dialect} {db : Database} {s : State}

theorem consults_exec {t : Thread} {x : Outcome} {pc : QueryPc} {q : Query}
    (hf : s.frame t = .query pc q) (hx : D.ServesQuery db q pc x) :
    Consults D db s (.exec t x) := by
  refine ⟨by simp [CallbacksReturn], ?_, by simp⟩
  rintro _ _ pc' q' ⟨⟩ hf'
  cases hf.symm.trans hf'
  exact Or.inr hx

theorem consults_task {w : Worker} {x : Outcome} {y : Execution} (hpc : s.pc w = .run y)
    (hx : D.ServesTask db y.task y.pc x) : Consults D db s (.work w (.task (.connector x))) := by
  refine ⟨by simp [CallbacksReturn], by simp, ?_⟩
  rintro _ _ y' ⟨⟩ hpc'
  cases hpc.symm.trans hpc'
  exact Or.inr hx

/-- The steps in which the connector is not called. -/
theorem consults_other {l : Label} (hexec : ∀ t x, l ≠ .exec t x)
    (htask : ∀ w a, l = .work w (.task a) → (∀ x, a ≠ .connector x) ∧ a ≠ .callbackThrow) :
    Consults D db s l :=
  ⟨fun w e => (htask w _ e).2 rfl, fun t x _ _ e => absurd e (hexec t x),
    fun w x _ e => absurd rfl ((htask w _ e).1 x)⟩

/-- A message is persisted. -/
theorem Service.reachable_of_persist {E : Environment} {s : Service} {message exchange : String}
    {status : PGStatus} {c : Connection}
    (h : (pgMessagePersist E message exchange).run.run s.connection = (.ok status, c)) :
    (service E).ReachableWhere (Service.Consults D) s
      { s with connection := c, log := s.log ++ [⟨message, exchange, status⟩] } := by
  refine .tail (l := .persist message exchange) (.refl s) (by trivial) ?_
  simp only [service, Service.step, h]

/-- A run of the clients, in which nothing is persisted. -/
theorem Service.reachable_of_run {E : Environment} {s : Service} {ls : List Label}
    {q : State × (ℕ → Record)} (h : accounted.run s.queries ls = some q)
    (hls : accounted.AllSteps (fun p l => Pg.Consults D s.connection.committed p.1 l)
      s.queries ls) :
    (service E).ReachableWhere (Service.Consults D) s { s with queries := q } := by
  induction ls generalizing s with
  | nil =>
    cases h
    rfl
  | cons l ls ih =>
    obtain ⟨q₁, hst, hrun⟩ := Option.bind_eq_some_iff.1 h
    obtain ⟨hl, hrest⟩ := hls q₁ hst
    refine .head (s := { s with queries := q₁ }) (l := .query l) hl ?_ (ih hrun hrest)
    change (accounted.step s.queries l).map _ = _
    rw [hst]
    rfl

/-- A query for all messages is entered, and its task selects `messages`. -/
theorem allSteps_query {messages : List Message}
    (h : D.Answers db (Task.query ⟨0, -1, true⟩) (.messages messages)) :
    accounted.AllSteps (fun p l => Consults D db p.1 l) (State.init, fun _ => {})
      (queryLabels 0 0 true ++ fetchLabels ⟨0, 0⟩ messages) := by
  refine (Machine.allSteps_cons_iff rfl).2 ⟨consults_other (by simp) (by simp), ?_⟩
  refine (Machine.allSteps_cons_iff rfl).2 ⟨consults_exec rfl rfl, ?_⟩
  refine (Machine.allSteps_cons_iff rfl).2 ⟨consults_exec rfl rfl, ?_⟩
  refine (Machine.allSteps_cons_iff rfl).2 ⟨consults_exec rfl rfl, ?_⟩
  refine (Machine.allSteps_cons_iff rfl).2 ⟨consults_exec rfl rfl, ?_⟩
  refine (Machine.allSteps_cons_iff rfl).2 ⟨consults_other (by simp) (by simp), ?_⟩
  refine (Machine.allSteps_cons_iff rfl).2 ⟨consults_other (by simp) (by simp), ?_⟩
  refine (Machine.allSteps_cons_iff rfl).2 ⟨consults_other (by simp) (by simp), ?_⟩
  refine (Machine.allSteps_cons_iff rfl).2 ⟨consults_task rfl rfl, ?_⟩
  refine (Machine.allSteps_cons_iff rfl).2 ⟨consults_task rfl rfl, ?_⟩
  refine (Machine.allSteps_cons_iff rfl).2 ⟨consults_task rfl rfl, ?_⟩
  refine (Machine.allSteps_cons_iff rfl).2 ⟨consults_task rfl rfl, ?_⟩
  refine (Machine.allSteps_cons_iff rfl).2 ⟨consults_task rfl h, ?_⟩
  exact (Machine.allSteps_cons_iff rfl).2 ⟨consults_task rfl rfl, trivial⟩

end Run

/-- A query is entered after one call has returned; while it is executed, another message is
persisted. -/
theorem queries_linearizable_hello :
    ∃ s₀ s log, (service standardEnvironment).ReachableWhere (Service.Consults .standard)
        (.start emptyConnection) s₀ ∧
      (service standardEnvironment).ReachableWhere (Service.Consults .standard) s₀ s ∧
      s₀.log = [⟨"hello", "", .pgSuccess⟩] ∧ s.log.length = 2 ∧
      s.state.calls 0 = [[⟨1, "hello", "now"⟩]] ∧ s₀.log <+: log ∧ log <+: s.log ∧
      Delivers .standard Dialect.standard.stores log "" [⟨1, "hello", "now"⟩] := by
  have hstored : Dialect.standard.stores "hello" = some "hello" :=
    Dialect.stores_eq _ (Dialect.denoted_eq _ _ (by decide)) (by decide)
  obtain ⟨c, hrun, hmessages⟩ := persist_run_empty hstored
  have h₀ := Service.reachable_of_persist (D := .standard) (s := .start emptyConnection) hrun
  -- the query selects the message
  have hanswer : Dialect.standard.Answers c.committed (Task.query ⟨0, -1, true⟩)
      (.messages [⟨1, "hello", "now"⟩]) := by
    refine ⟨none, _, Dialect.standard.parse_query _, .refl _, ?_⟩
    rw [Database.select, hmessages]
    exact .cons ⟨rfl, rfl, rfl⟩ .nil
  obtain ⟨q, q', hq, hq', hcalls, hexchange⟩ : ∃ q q',
      accounted.run (State.init, fun _ => {})
        (queryLabels 0 0 true ++ fetchLabels ⟨0, 0⟩ [⟨1, "hello", "now"⟩]) = some q ∧
      accounted.run q [.work ⟨0, 0⟩ (.task .lock), .work ⟨0, 0⟩ (.task .invoke)] = some q' ∧
      q'.1.calls 0 = [[⟨1, "hello", "now"⟩]] ∧ (q'.2 0).exchange = "" := ⟨_, _, rfl, rfl, rfl, rfl⟩
  have h₁ := Service.reachable_of_run (E := standardEnvironment)
    (s := { connection := c, log := [⟨"hello", "", .pgSuccess⟩] }) hq (allSteps_query hanswer)
  -- another message is persisted, before the callback is called
  obtain ⟨status, c', hrun', -⟩ := exists_persist standardEnvironment "bye" "" c
  have h₂ := h₁.trans (Service.reachable_of_persist hrun')
  have h₃ := h₂.trans <| Service.reachable_of_run hq' <|
    Machine.allSteps_of_labels fun l hl p => by
      rcases List.mem_pair.1 hl with rfl | rfl
      · exact consults_other (by simp) (by simp)
      · exact consults_other (by simp) (by simp)
  have hserial : ∀ x ∈ emptyConnection.committed.exchanges, 1 ≤ x.id := by
    simp [emptyConnection, Database.empty]
  obtain ⟨-, -, log, hfirst, hlog, hdelivers⟩ := queries_linearizable standardEnvironment
    emptyConnection rfl hserial h₀ h₃ (k := 0) le_rfl (hcalls ▸ List.mem_singleton_self _)
  refine ⟨_, _, log, h₀, h₃, rfl, rfl, hcalls, hfirst, hlog, ?_⟩
  change Delivers _ _ log (q'.2 0).exchange _ at hdelivers
  rwa [hexchange] at hdelivers

end Comyno.Pg
