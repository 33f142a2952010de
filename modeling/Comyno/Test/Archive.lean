import Comyno.Pg.Retrieval
import Comyno.Test.Dialogue

/-!
# The program and its database

Messages get into the database in two ways: the handlers of `cm_pgclient.cpp` persist what the user
types, and `receiveAndPersistCallback` persists what a receiver fetches.  Both call
`pgMessagePersist`, on two clients of one database.  `archive` is the machine `terminal` with this
database.

## The model

* The transaction of a call of `pgMessagePersist` ends in one step, and the call returns in a later
  one.  Before and in between the other threads go on, and their calls may begin, end and return.
* A transaction takes effect when it ends.  It reads `Exchanges` only, which nobody writes, so it is
  executed as if it were alone.  A commit that throws is taken to have no effect.
* A handler of `cm_pgclient.cpp` makes its calls one by one, after it has read its input, and the
  main thread does nothing else until the last of them has returned.
* A callback enters its call and returns from it in steps of the machine `program`.

The list `log` holds the calls whose transactions have ended, with their callers, and `returned`
holds what the calls have returned; no step reads them.

## Main results

* `archive_step_cases` : the steps, by what happens to the calls.
* `archive_maps` : with its database, the program runs as it does at a terminal.
* `stored_of_reachable` : the rows of `Messages` are those of the successful calls.
* `typed_of_reachable` : the calls of the main thread are those of the items it has entered.
* `statuses_of_reachable` : a call returns what its transaction has ended with.
-/

namespace Comyno

open Conc

/-! ### The calls of `pgMessagePersist` -/

/-- The calls that the handler of an item makes: the messages, with their exchanges. -/
def PgItem.persists : PgItem → List (String × String)
  | .persistMessage message => [(message, "")]
  | .persistMessageOnExchange exchange message => [(message, exchange)]
  | .persistMessage4Times message => List.replicate 4 (message, "")
  | .queryExchange _ | .readAllMessages | .readAllMessages4Times => []

/-- The calls that the handler of an item makes. -/
def Entry.persists : Entry → List (String × String)
  | .qpid _ => []
  | .pg i => i.persists

/-- The call of `pgMessagePersist` that the callback of `r` is in: the message and the exchange. -/
def Program.calling (p : Program) (r : RecvId) : Option (String × String) :=
  match (p.recv r).pc, p.act r with
  | .callback m, some (.pgMessagePersist .done) =>
    if .postgresClient ∈ p.destroyed then none else some (m.content, (p.recv r).mExchange)
  | _, _ => none

/-- The receiver to whose callback `pgMessagePersist` returns in the step. -/
def Program.returns (p : Program) : ProgramLabel → Option RecvId
  | .callback r => if (p.calling r).isSome then some r else none
  | .read _ | .input _ | .main | .library _ => none

/-- Where a call of `pgMessagePersist` is made. -/
inductive PersistCaller where
  /-- In a handler of `cm_pgclient.cpp`, by the main thread. -/
  | handler
  /-- In the callback of a receiver. -/
  | callback (r : RecvId)
  deriving DecidableEq, Repr

/-- The main thread takes the step. -/
def ProgramLabel.ofMain : ProgramLabel → Bool
  | .read _ | .input _ | .main => true
  | .callback _ | .library _ => false

/-! ### The machine -/

/-- The state of the program at a terminal, with its database. -/
structure Archive where
  terminal : Terminal
  /-- What a new connection to the database finds. -/
  connection : Pg.Connection
  /-- The calls of the handler of `cm_pgclient.cpp` whose transactions have still to end. -/
  handler : List (String × String) := []
  /-- What the present call of a caller will return, once its transaction has ended. -/
  ended : PersistCaller → Option Pg.PGStatus := fun _ => none
  /-- The calls whose transactions have ended, oldest first. -/
  log : List (PersistCaller × Pg.PersistCall) := []
  /-- What the calls of a caller have returned, oldest first. -/
  returned : PersistCaller → List Pg.PGStatus := fun _ => []

/-- The labels of the machine. -/
inductive ArchiveLabel where
  | terminal (l : ProgramLabel)
  /-- The transaction of the present call of `k` ends. -/
  | ends (k : PersistCaller)
  /-- The present call of the handler of `cm_pgclient.cpp` returns. -/
  | returns
  deriving DecidableEq, Repr

namespace Archive

/-- The program is started with a text and a database. -/
def start (text : List Char) (connection : Pg.Connection) : Archive :=
  { terminal := .start text, connection := connection }

variable (E : Pg.Environment) (s : Archive)

/-- The call whose transaction ends next. -/
def calling : PersistCaller → Option (String × String)
  | .handler => s.handler.head?
  | .callback r => s.terminal.program.calling r

/-- The main thread is in a call of `pgMessagePersist`, or about to make one. -/
def busy : Bool := !s.handler.isEmpty || (s.ended .handler).isSome

/-- The transaction of the present call of `k` ends. -/
def persist (k : PersistCaller) (message exchange : String) : Archive :=
  match (Pg.pgMessagePersist E message exchange).run.run s.connection with
  | (.ok status, connection) =>
    { s with
      connection := connection
      handler := if k = .handler then s.handler.tail else s.handler
      ended := Function.update s.ended k (some status)
      log := s.log ++ [(k, ⟨message, exchange, status⟩)] }
  -- no exception leaves `pgMessagePersist`
  | (.error _, connection) => { s with connection := connection }

/-- The present call of `k` returns. -/
def finish (k : PersistCaller) : Archive :=
  { s with
    ended := Function.update s.ended k none
    returned := Function.update s.returned k (s.returned k ++ (s.ended k).toList) }

/-- The step of the program to `t`; the handler of an item that is entered has its calls to make. -/
def goto (t : Terminal) : Archive :=
  { s with
    terminal := t
    handler := s.handler ++
      (t.entered.drop s.terminal.entered.length).flatMap Entry.persists }

/-- One step of the program with its database. -/
def step (parse : AddressParser) (s : Archive) : ArchiveLabel → Option Archive
  | .terminal l =>
    if l.ofMain ∧ s.busy then none
    else match s.terminal.program.returns l with
      | some r =>
        if s.ended (.callback r) = none then none
        else ((Comyno.terminal parse).step s.terminal l).map (s.finish (.callback r)).goto
      | none => ((Comyno.terminal parse).step s.terminal l).map s.goto
  | .ends k =>
    if s.terminal.program.running ∧ s.ended k = none then
      (s.calling k).map fun call => s.persist E k call.1 call.2
    else none
  | .returns =>
    if s.terminal.program.running ∧ s.ended .handler ≠ none then some (s.finish .handler)
    else none

/-- The calls of one caller whose transactions have ended. -/
def calls (k : PersistCaller) : List Pg.PersistCall :=
  (s.log.filter fun c => c.1 = k).map Prod.snd

/-- What they were called with: the messages, with their exchanges. -/
def made (k : PersistCaller) : List (String × String) :=
  (s.calls k).map fun call => (call.message, call.exchange)

end Archive

/-- **The program with its database.** -/
def archive (parse : AddressParser) (E : Pg.Environment) : Machine Archive ArchiveLabel :=
  ⟨Archive.step E parse⟩

/-! ### Its steps -/

/-- `s'` is `s` after the end of the transaction of a call of `k`. -/
structure Archive.Persists (D : Pg.Dialect) (s s' : Archive) (k : PersistCaller)
    (message exchange : String) : Prop where
  terminal : s'.terminal = s.terminal
  handler : s'.handler = if k = .handler then s.handler.tail else s.handler
  returned : s'.returned = s.returned
  persists : ∃ status, s'.ended = Function.update s.ended k (some status) ∧
    s'.log = s.log ++ [(k, ⟨message, exchange, status⟩)] ∧
    Pg.PersistResult D s.connection.committed message exchange status s'.connection.committed

/-- **A transaction ends with a status**, which says what it has done. -/
theorem Archive.persists_persist (E : Pg.Environment) (s : Archive) (k : PersistCaller)
    (message exchange : String) :
    s.Persists E.dialect (s.persist E k message exchange) k message exchange := by
  obtain ⟨status, c, hrun, hresult, -⟩ := Pg.exists_persist E message exchange s.connection
  unfold persist
  rw [hrun]
  exact ⟨rfl, rfl, rfl, status, rfl, rfl, hresult⟩

/-- The steps of the machine, by what happens to the calls. -/
inductive ArchiveStep (parse : AddressParser) (D : Pg.Dialect) (s : Archive) :
    ArchiveLabel → Archive → Prop
  /-- No call returns. -/
  | quiet {l : ProgramLabel} {t : Terminal} : (l.ofMain = true → s.busy = false) →
      (terminal parse).step s.terminal l = some t → s.terminal.program.returns l = none →
      ArchiveStep parse D s (.terminal l) (s.goto t)
  /-- A call by a callback returns. -/
  | callback {r : RecvId} {t : Terminal} : s.ended (.callback r) ≠ none →
      s.terminal.program.calling r ≠ none →
      (terminal parse).step s.terminal (.callback r) = some t →
      ArchiveStep parse D s (.terminal (.callback r)) ((s.finish (.callback r)).goto t)
  /-- A transaction ends. -/
  | ends {k : PersistCaller} {message exchange : String} {s' : Archive} : s.ended k = none →
      s.calling k = some (message, exchange) → s.Persists D s' k message exchange →
      ArchiveStep parse D s (.ends k) s'
  /-- A call by a handler returns. -/
  | returns : s.ended .handler ≠ none → ArchiveStep parse D s .returns (s.finish .handler)

section Step

variable {parse : AddressParser} {E : Pg.Environment} {D : Pg.Dialect} {s s' : Archive}
  {l : ArchiveLabel}

@[simp] theorem Archive.finish_calls (j k : PersistCaller) :
    (s.finish k).calls j = s.calls j := rfl

@[simp] theorem Archive.finish_made (j k : PersistCaller) : (s.finish k).made j = s.made j := rfl

@[simp] theorem Archive.finish_ended_self (k : PersistCaller) : (s.finish k).ended k = none :=
  Function.update_self ..

theorem Archive.finish_ended_of_ne {j k : PersistCaller} (h : j ≠ k) :
    (s.finish k).ended j = s.ended j :=
  Function.update_of_ne h ..

@[simp] theorem Archive.finish_returned_self (k : PersistCaller) :
    (s.finish k).returned k = s.returned k ++ (s.ended k).toList :=
  Function.update_self ..

theorem Archive.finish_returned_of_ne {j k : PersistCaller} (h : j ≠ k) :
    (s.finish k).returned j = s.returned j :=
  Function.update_of_ne h ..

@[simp] theorem Archive.goto_terminal (t : Terminal) : (s.goto t).terminal = t := rfl

@[simp] theorem Archive.goto_made (t : Terminal) (k : PersistCaller) :
    (s.goto t).made k = s.made k := rfl

@[simp] theorem Archive.goto_ended (t : Terminal) : (s.goto t).ended = s.ended := rfl

theorem Program.calling_cases {p : Program} {r : RecvId} {message exchange : String}
    (h : p.calling r = some (message, exchange)) : ∃ m, (p.recv r).pc = .callback m ∧
      p.act r = some (.pgMessagePersist .done) ∧ .postgresClient ∉ p.destroyed ∧
      message = m.content ∧ exchange = (p.recv r).mExchange := by
  unfold Program.calling at h
  split at h
  · rename_i m hpc ha
    split_ifs at h with hd
    cases h
    exact ⟨m, hpc, ha, hd, rfl, rfl⟩
  · cases h

/-- A call returns in a step of its callback. -/
theorem Program.returns_cases {p : Program} {l : ProgramLabel} {r : RecvId}
    (h : p.returns l = some r) : l = .callback r ∧ p.calling r ≠ none := by
  cases l with
  | callback q =>
    simp only [Program.returns] at h
    split_ifs at h with hcalling
    cases h
    exact ⟨rfl, Option.isSome_iff_ne_none.1 hcalling⟩
  | read | input | main | library => cases h

/-- **The list of steps is complete.** -/
theorem archive_step_cases (h : (archive parse E).step s l = some s') :
    ArchiveStep parse E.dialect s l s' := by
  cases l with
  | terminal l =>
    simp only [archive, Archive.step] at h
    split_ifs at h with hblocked
    split at h
    · rename_i r hreturns
      obtain ⟨rfl, hcalling⟩ := Program.returns_cases hreturns
      split_ifs at h with hended
      obtain ⟨t, ht, rfl⟩ := Option.map_eq_some_iff.1 h
      exact .callback hended hcalling ht
    · obtain ⟨t, ht, rfl⟩ := Option.map_eq_some_iff.1 h
      exact .quiet (fun hl => eq_false_of_ne_true fun hb => hblocked ⟨hl, hb⟩) ht ‹_›
  | ends k =>
    simp only [archive, Archive.step] at h
    split_ifs at h with hrun
    obtain ⟨⟨message, exchange⟩, hcalling, rfl⟩ := Option.map_eq_some_iff.1 h
    exact .ends hrun.2 hcalling (s.persists_persist E _ _ _)
  | returns =>
    simp only [archive, Archive.step] at h
    split_ifs at h with hrun
    cases h
    exact .returns hrun.2

/-- **With its database, the program runs as it does at a terminal.** -/
theorem archive_maps (parse : AddressParser) (E : Pg.Environment) :
    Machine.Maps (archive parse E) (terminal parse) Archive.terminal fun _ l => match l with
      | .terminal l => some l
      | .ends _ | .returns => none := by
  intro s l s' h
  cases archive_step_cases h with
  | quiet _ ht => exact ht
  | callback _ _ ht => exact ht
  | ends _ _ hpersists => exact hpersists.terminal
  | returns => rfl

/-! ### The rows -/

/-- The rows of `Messages` that are not in `db` are those of the successful calls, in the order in
which the transactions have ended. -/
def Archive.Stored (D : Pg.Dialect) (db : Pg.Database) (s : Archive) : Prop :=
  db.ExtendsTo D (s.log.map Prod.snd) s.connection.committed

theorem Archive.Stored.step {db : Pg.Database} (h : s.Stored D db)
    (hst : ArchiveStep parse D s l s') : s'.Stored D db := by
  cases hst with
  | quiet | callback | returns => exact h
  | ends _ _ hp =>
    obtain ⟨status, -, hlog, hresult⟩ := hp.persists
    rw [Archive.Stored, hlog, List.map_append]
    exact Pg.Database.ExtendsTo.persist h hresult

/-! ### The calls of a caller -/

/-- A transaction that ends is logged for its caller. -/
theorem Archive.Persists.exists_call {k : PersistCaller} {message exchange : String}
    (h : s.Persists D s' k message exchange) : ∃ status,
      s'.ended = Function.update s.ended k (some status) ∧ ∀ j, s'.calls j =
        s.calls j ++ if k = j then [⟨message, exchange, status⟩] else [] := by
  obtain ⟨status, hended, hlog, -⟩ := h.persists
  refine ⟨status, hended, fun j => ?_⟩
  rw [Archive.calls, hlog, List.filter_append, List.map_append, ← Archive.calls]
  by_cases hk : k = j <;> simp [hk]

theorem Archive.Persists.made {k j : PersistCaller} {message exchange : String}
    (h : s.Persists D s' k message exchange) :
    s'.made j = s.made j ++ if k = j then [(message, exchange)] else [] := by
  obtain ⟨status, -, hcalls⟩ := h.exists_call
  rw [Archive.made, hcalls, List.map_append, ← Archive.made]
  by_cases hk : k = j <;> simp [hk]

/-- A call returns what its transaction has ended with; of each caller, at most one call has still
to return. -/
def Archive.Statuses (s : Archive) : Prop :=
  ∀ k, (s.calls k).map Pg.PersistCall.status = s.returned k ++ (s.ended k).toList

theorem Archive.Statuses.finish (h : s.Statuses) (k : PersistCaller) : (s.finish k).Statuses := by
  intro j
  by_cases hj : j = k
  · subst hj
    simpa using h j
  · rw [finish_calls, finish_returned_of_ne hj, finish_ended_of_ne hj]
    exact h j

theorem Archive.Statuses.step (h : s.Statuses) (hst : ArchiveStep parse D s l s') :
    s'.Statuses := by
  cases hst with
  | quiet => exact h
  | @callback r =>
    have h₁ : (s.finish (.callback r)).Statuses := h.finish _
    exact h₁
  | returns => exact h.finish _
  | @ends k message exchange _ hended _ hp =>
    obtain ⟨status, hended', hcalls⟩ := hp.exists_call
    intro j
    rw [hcalls, hp.returned, hended', List.map_append, h j]
    by_cases hj : k = j
    · subst hj
      rw [if_pos rfl, Function.update_self, hended, Option.toList_none, List.append_nil]
      rfl
    · rw [if_neg hj, Function.update_of_ne (Ne.symm hj), List.map_nil, List.append_nil]

/-! ### The calls of the main thread -/

/-- The items entered are never forgotten. -/
theorem entered_of_step {t t' : Terminal} {l : ProgramLabel}
    (h : (terminal parse).step t l = some t') : t.entered <+: t'.entered := by
  cases (terminal_step_cases h).2 with
  | read =>
    rw [Terminal.afterToken_entered]
    rcases readToken_entered t.program.main t.cin t.entered with h | ⟨i, h⟩ <;> rw [h]
    exact List.prefix_append _ _
  | input => exact List.prefix_append _ _
  | main | callback | library => exact List.prefix_rfl

/-- The calls of the main thread are those of the items entered. -/
def Archive.Typed (s : Archive) : Prop :=
  s.made .handler ++ s.handler = s.terminal.entered.flatMap Entry.persists

/-- A step of the program enters at most one more item. -/
theorem Archive.Typed.goto {t : Terminal} {l : ProgramLabel} (h : s.Typed)
    (ht : (Comyno.terminal parse).step s.terminal l = some t) : (s.goto t).Typed := by
  obtain ⟨rest, hrest⟩ := entered_of_step ht
  change s.made .handler ++ (s.handler ++ _) = t.entered.flatMap Entry.persists
  rw [← hrest, List.drop_left, List.flatMap_append, ← List.append_assoc, h]

theorem Archive.Typed.step (h : s.Typed) (hst : ArchiveStep parse D s l s') : s'.Typed := by
  cases hst with
  | quiet _ ht => exact h.goto ht
  | @callback r t _ _ ht =>
    have h₁ : (s.finish (.callback r)).Typed := h
    exact h₁.goto ht
  | returns => exact h
  | @ends k message exchange _ _ hcalling hp =>
    rw [Archive.Typed, hp.made, hp.handler, hp.terminal]
    cases k with
    | callback r =>
      rw [if_neg (by simp), if_neg (by simp), List.append_nil]
      exact h
    | handler =>
      rw [if_pos rfl, if_pos rfl, List.append_assoc, List.singleton_append,
        List.cons_head?_tail hcalling]
      exact h

end Step

section Reachable

variable {parse : AddressParser} {E : Pg.Environment} {text : List Char} {c : Pg.Connection}
  {C : Archive → ArchiveLabel → Prop} {s : Archive}

/-- **The rows are those of the successful calls.** -/
theorem stored_of_reachable (h : (archive parse E).ReachableWhere C (.start text c) s) :
    s.Stored E.dialect c.committed :=
  h.invariant (.nil _ _) fun _ _ _ hs _ hst => hs.step (archive_step_cases hst)

/-- **A call returns what its transaction has ended with.** -/
theorem statuses_of_reachable (h : (archive parse E).ReachableWhere C (.start text c) s) :
    s.Statuses :=
  h.invariant (fun _ => rfl) fun _ _ _ hs _ hst => hs.step (archive_step_cases hst)

/-- **The calls of the main thread are those of the items it has entered**, but for those whose
transactions have still to end. -/
theorem typed_of_reachable (h : (archive parse E).ReachableWhere C (.start text c) s) : s.Typed :=
  h.invariant rfl fun _ _ _ hs _ hst => hs.step (archive_step_cases hst)

end Reachable

end Comyno
