import Comyno.Pg.Accounting
import Comyno.Pg.Dialect

/-!
# Queries that a database answers

In the machine `pg` the connector returns whatever the run says.  This file is about the runs in
which the calls of the connector that one query and its task make succeed, and return what the
database says; other queries may fail.  No client is destroyed.

## Main definitions

* `Dialect.Answers` : the answer of the database to the text of a query.
* `Serves`, `Served` : the condition on the steps, and the states that are reached under it.
* `Record.Informed` : what is recorded of a query then.

## Main results

* `Served.informed` : the record of the query comes from the database.
-/

namespace Comyno.Pg

open Conc

/-! ### Answers -/

/-- What `resultGetAll` reads from a row. -/
structure MessageRow.Reads (row : MessageRow) (m : Message) : Prop where
  id : row.id = m.id
  payload : row.payload = some m.payload
  timestamp : row.createdAt = some m.timestamp

/-- What `executeQuery` returns for the text of a query, which selects rows in any order. -/
def Dialect.Answers (D : Dialect) (db : Database) (query : String) : Outcome → Prop
  | .ids r => ∃ name, D.parse query = some (.exchangeIds name) ∧ r = db.exchangeIds name
  | .messages r => ∃ e rows, D.parse query = some (.select e) ∧ rows.Perm (db.select e) ∧
      List.Forall₂ MessageRow.Reads rows r
  | .ok | .throw | .quoted _ => False

/-- What a step of `pgMessageQuery` gets. -/
def Dialect.ServesQuery (D : Dialect) (db : Database) (q : Query) : QueryPc → Outcome → Prop
  | .quoteString, x => x = .quoted (D.quoteString q.exchange)
  | .executeQuery query, x => D.Answers db query x
  | _, x => x = .ok

/-- What a call of the connector in `queryExchange` gets. -/
def Dialect.ServesTask (D : Dialect) (db : Database) (task : Task) : TaskPc → Outcome → Prop
  | .executeQuery, x => D.Answers db task.query x
  | _, x => x = .ok

/-- The calls of the connector for the query `k` succeed, on the database `db`. -/
structure Serves (D : Dialect) (db : Database) (k : ℕ) (s : State) (l : Label) : Prop where
  proper : ProperCallbacks s l
  keeps : ∀ t c, l ≠ .call t (.destructor c)
  query : ∀ t x pc q, l = .exec t x → s.frame t = .query pc q → q.ticket = k →
    D.ServesQuery db q pc x
  task : ∀ w x y, l = .work w (.task (.connector x)) → s.pc w = .run y → y.task.ticket = k →
    D.ServesTask db y.task y.pc x

variable {D : Dialect} {db : Database} {k : ℕ} {s s' : State} {l : Label} {R : Record}
  {A : ℕ → Record}

theorem Dialect.ServesQuery.ne_throw {q : Query} {pc : QueryPc} {x : Outcome}
    (h : D.ServesQuery db q pc x) : x ≠ .throw := by
  rintro rfl
  cases pc with
  | executeQuery => exact h
  | _ => cases h

theorem Dialect.ServesTask.ne_throw {task : Task} {pc : TaskPc} {x : Outcome}
    (h : D.ServesTask db task pc x) : x ≠ .throw := by
  rintro rfl
  cases pc with
  | executeQuery => exact h
  | _ => cases h

/-! ### Pools that are not stopped -/

/-- No client is being destroyed, and no pool is stopped. -/
structure Alive (s : State) : Prop where
  frame : ∀ t pc c, s.frame t ≠ .dtor pc c
  stop : ∀ c, (s.pool c).stop = false

theorem Alive.init : Alive State.init := ⟨fun _ _ _ h => (by cases h), fun _ => rfl⟩

theorem Alive.frame_step (hs : Alive s) (hl : ∀ t c, l ≠ .call t (.destructor c))
    (h : Step s l s') : ∀ t pc c, s'.frame t ≠ .dtor pc c := by
  intro t pc c
  by_cases ht : l.thread = some t
  · cases h with
    | loop | task => cases ht
    | callDestructor => exact absurd rfl (hl _ _)
    | query _ hq =>
      cases ht
      rw [State.goto_frame_self]
      cases hq <;> simp
    | dtorLock hf | dtorStop hf | dtorNotify hf | dtorJoin hf | dtorJoinThrow hf | dtorDone hf =>
      exact absurd hf (hs.frame _ _ _)
    | _ =>
      cases ht
      simp
  · rw [h.frame_of_ne ht]
    exact hs.frame t pc c

theorem Alive.stop_step (hs : Alive s) (h : Step s l s') : ∀ c, (s'.pool c).stop = false := by
  intro c
  have hold := hs.stop c
  cases h with
  | @loop w a P hP =>
    by_cases hc : c = w.client
    · subst hc
      cases hP <;> simpa using hold
    · simpa [hc] using hold
  | @task w => by_cases hc : c = w.client <;> simpa [State.setPc, hc] using hold
  | @push _ _ q | @pushStopped _ _ q | @enqueue _ _ q | @notifyOne _ q | @notifyNobody _ q =>
    by_cases hc : c = q.client <;> simpa [hc] using hold
  | @callDestructor _ d => by_cases hc : c = d <;> simpa [hc, State.pool] using hold
  | dtorLock hf | dtorStop hf | dtorNotify hf | dtorJoin hf | dtorJoinThrow hf | dtorDone hf =>
    exact absurd hf (hs.frame _ _ _)
  | _ => simpa using hold

/-! ### Runs -/

/-- A state of the process, with the records, that is reached with the query `k` served. -/
def Served (D : Dialect) (db : Database) (k : ℕ) (p : State × (ℕ → Record)) : Prop :=
  accounted.ReachableWhere (fun p l => Serves D db k p.1 l) (State.init, fun _ => {}) p

namespace Served

variable (h : Served D db k (s, A))

include h

theorem proper : pg.ReachableWhere ProperCallbacks State.init s :=
  Machine.maps_observe.reachableWhere
    (fun _ _ _ hl hg => by cases hg; exact Serves.proper hl) h

theorem running : s.halted = false := running_of_reachable (undisturbed_of_proper h.proper)

theorem tickets : Tickets s A := tickets_of_reachable (h.mono fun _ _ hl => hl.proper)

theorem alive : Alive s := by
  refine h.invariant (I := fun p => Alive p.1) .init fun p l p' hp hl hst => ?_
  have hstep := (step_cases (Machine.observe_step_eq_some_iff.1 hst).1).2
  exact ⟨hp.frame_step hl.keeps hstep, hp.stop_step hstep⟩

/-- One more step. -/
theorem step (hl : Serves D db k s l) (hst : pg.step s l = some s') :
    Served D db k (s', account A s l s') :=
  h.tail hl (Machine.observe_step_eq_some_iff.2 ⟨hst, rfl⟩)

end Served

/-! ### What is recorded -/

/-- The record of a query comes from the database. -/
structure Record.Informed (D : Dialect) (db : Database) (R : Record) : Prop where
  literal : ∀ str, R.literal = some str → str = D.quoteString R.exchange
  lookup : ∀ query r, R.lookup = some (query, r) → D.Answers db query (.ids r)
  select : ∀ query r, R.select = some (query, r) → D.Answers db query (.messages r)
  failed : R.failed = false
  /-- An error is returned only if the lookup has returned nothing. -/
  error : R.result = some .pgError → R.exchange ≠ "" ∧
    ∃ str, R.literal = some str ∧ R.lookup = some (exchangeQuery str, [])

theorem Record.Informed.init : Record.Informed D db {} := by
  refine ⟨?_, ?_, ?_, rfl, ?_⟩ <;> simp

/-- A step of the call. -/
theorem Record.Informed.query (h : R.Informed D db) (ht : Ticket s k R) {t : Thread} {pc : QueryPc}
    {q : Query} {x : Outcome} {f : Frame} (hf : s.frame t = .query pc q) (hq : q.ticket = k)
    (hst : QueryStep q pc x f) (hserve : D.ServesQuery db q pc x) :
    (R.exec q pc x f).Informed D db := by
  have hpc : pc ≠ .notify := by
    rintro rfl
    cases hst.usesConnector
  obtain ⟨-, ⟨callback, rfl⟩, hreach, -, hres, -⟩ := ht.calling hf hq hpc
  have hno : R.result ≠ some .pgError := by simp [hres]
  cases hst with
  | @quoteString str =>
    obtain rfl : str = D.quoteString R.exchange := Outcome.quoted.inj hserve
    exact ⟨fun _ hstr => (Option.some.inj hstr).symm, h.lookup, h.select, h.failed,
      fun e => absurd e hno⟩
  | @executeQuery query r =>
    refine ⟨h.literal, fun query' r' hr => ?_, h.select, h.failed, fun e => absurd e hno⟩
    obtain ⟨rfl, rfl⟩ : query = query' ∧ r = r' := by simpa [Record.exec] using hr
    exact hserve
  | resultIsEmpty =>
    obtain ⟨hne, hlookup⟩ := hreach
    exact ⟨h.literal, h.lookup, h.select, h.failed, fun _ => ⟨hne, hlookup⟩⟩
  | throw => exact absurd rfl hserve.ne_throw
  | _ => exact h

/-- A step of the task. -/
theorem Record.Informed.task (h : R.Informed D db) {x : Execution} {a : TaskAct}
    {pc : LoopPc Execution} (hst : TaskStep x a pc)
    (hserve : ∀ y, a = .connector y → D.ServesTask db x.task x.pc y) :
    (R.task x a pc).Informed D db := by
  obtain ⟨task, tpc⟩ := x
  cases hst with
  | @executeQuery r hpc =>
    cases hpc
    refine ⟨h.literal, h.lookup, fun query' r' hr => ?_, h.failed, h.error⟩
    obtain ⟨rfl, rfl⟩ : task.query = query' ∧ r = r' := by
      simpa [Record.task, Record.connector] using hr
    exact hserve _ rfl
  | throw => exact absurd rfl (hserve _ rfl).ne_throw
  | openConnection hpc | createTransaction hpc | prepareStatement hpc | executePrepared hpc
  | resultGetAll hpc | lock hpc | invoke hpc | callThrow hpc | callbackReturn hpc
  | callbackThrow hpc | unlock hpc =>
    cases hpc
    exact ⟨h.literal, h.lookup, h.select, h.failed, h.error⟩

/-- **A step for the query keeps its record informed.** -/
theorem Record.Informed.step (h : R.Informed D db) (hs : Alive s) (ht : Ticket s k R)
    (hfresh : k = s.next → R.stage = .notCalled) (hl : Serves D db k s l) (hst : Step s l s')
    (hk : s.ticket l = some k) : (R.note s l s').Informed D db := by
  cases hst with
  | loop => exact ⟨h.literal, h.lookup, h.select, h.failed, h.error⟩
  | @task w a _ x m pc _ hx _ htask =>
    simp only [State.ticket, hx, Option.some.injEq] at hk
    have hnote : R.note s (.work w (.task a))
        (((s.setPc w pc).setMutex m).setInvoked (s.record x a)) = R.task x a pc := by
      simp [Record.note, hx]
    rw [hnote]
    exact h.task htask fun y hy => hl.task w y x (by rw [hy]) hx hk
  | callQuery =>
    obtain rfl : s.next = k := by simpa [State.ticket] using hk
    have hloc := ht.located
    simp only [State.Located, hfresh rfl] at hloc
    obtain ⟨rfl, -⟩ := hloc
    exact ⟨by simp [Record.note], by simp [Record.note], by simp [Record.note], rfl,
      by simp [Record.note]⟩
  | query hf hq =>
    simp only [State.ticket, hf, Option.some.injEq] at hk
    simpa [Record.note, hf] using h.query ht hf hk hq (hl.query _ _ _ _ rfl hf hk)
  | enqueue hf | push hf =>
    simp only [Record.note, hf, State.goto_frame_self, Record.exec]
    exact ⟨h.literal, h.lookup, h.select, h.failed, h.error⟩
  | pushStopped _ hstop => simp [hs.stop] at hstop
  | notifyOne | notifyNobody =>
    exact ⟨h.literal, h.lookup, h.select, h.failed, by simp [Record.note]⟩
  | callDestructor => simp [State.ticket] at hk
  | dtorLock hf | dtorStop hf | dtorNotify hf | dtorJoin hf | dtorJoinThrow hf | dtorDone hf =>
    exact absurd hf (hs.frame _ _ _)

/-- **What is recorded of the query comes from the database.** -/
theorem Served.informed (h : Served D db k (s, A)) : (A k).Informed D db := by
  refine h.invariant_of (I := fun p => Alive p.1 ∧ Tickets p.1 p.2)
    (J := fun p => (p.2 k).Informed D db) ?_ .init ?_
  · intro p hp
    have hp : Served D db k (p.1, p.2) := hp
    exact ⟨hp.alive, hp.tickets⟩
  · intro p l p' hp hinf hl hst
    obtain ⟨halive, htickets⟩ := hp
    obtain ⟨hstep, hA⟩ := Machine.observe_step_eq_some_iff.1 hst
    rw [hA]
    by_cases hk : p.1.ticket l = some k
    · rw [account_self hk]
      exact hinf.step halive (htickets.ticket k) (fun e => htickets.fresh k e.ge) hl
        (step_cases hstep).2 hk
    · rwa [account_of_ne hk]

end Comyno.Pg
