import Comyno.Pg.Served

/-!
# Queries that the database answers can be completed

A query that was entered can return, and its task can end, with all calls of the connector for it
answered by the database; whatever else the process is doing then, it goes on with what it has
begun.

## Main results

* `serves_of_continues` : a step that the query does not take part in serves it.
* `exists_completed` : from every state that a served run reaches.
-/

namespace Comyno.Pg

open Conc

variable {D : Dialect} {db : Database} {k : ℕ} {s s' : State} {l : Label} {R : Record}
  {A : ℕ → Record}

/-- The process can go on to a state that satisfies `P`, with the query `k` served. -/
def CanServe (D : Dialect) (db : Database) (k : ℕ) (p : State × (ℕ → Record))
    (P : State × (ℕ → Record) → Prop) : Prop :=
  ∃ p', accounted.ReachableWhere (fun p l => Serves D db k p.1 l) p p' ∧ P p'

namespace CanServe

variable {p : State × (ℕ → Record)} {P Q : State × (ℕ → Record) → Prop}

theorem here (h : P p) : CanServe D db k p P := ⟨p, .refl p, h⟩

theorem head (h : Served D db k (s, A)) (hl : Serves D db k s l) (hst : pg.step s l = some s')
    (hP : Served D db k (s', account A s l s') → CanServe D db k (s', account A s l s') P) :
    CanServe D db k (s, A) P := by
  obtain ⟨p', hr, hp'⟩ := hP (h.step hl hst)
  exact ⟨p', .head hl (Machine.observe_step_eq_some_iff.2 ⟨hst, rfl⟩) hr, hp'⟩

theorem trans (h : Served D db k p) (hP : CanServe D db k p P)
    (hQ : ∀ p', Served D db k p' → P p' → CanServe D db k p' Q) : CanServe D db k p Q := by
  obtain ⟨p', hr, hp'⟩ := hP
  obtain ⟨p'', hr', hp''⟩ := hQ p' (Machine.ReachableWhere.trans h hr) hp'
  exact ⟨p'', hr.trans hr', hp''⟩

end CanServe

/-! ### Steps of others -/

/-- A step of the process that the query `k` gets nothing from serves it: the call has queued its
task or was refused, and its task makes no call of the connector. -/
theorem serves_of_continues (ht : Ticket s k R) (hR : ∀ t, R.stage ≠ .calling t)
    (hrun : ∀ w x, s.pc w = .run x → x.task.ticket = k → x.pc.usesConnector = false)
    (hl : Continues s l) (h : Step s l s') : Serves D db k s l := by
  refine ⟨hl.proper, ?_, ?_, ?_⟩
  · rintro t c rfl
    cases hl
  · rintro t x pc q rfl hf hq
    rcases ht.frame t pc q hf hq with hstage | ⟨rfl, -⟩
    · exact absurd hstage (hR t)
    · -- `notify_one` is another label
      exfalso
      cases h with
      | query hf' hst =>
        cases hf.symm.trans hf'
        cases hst.usesConnector
      | enqueue hf' | push hf' | pushStopped hf' | dtorLock hf' | dtorStop hf' | dtorNotify hf'
      | dtorJoin hf' | dtorJoinThrow hf' | dtorDone hf' => cases hf.symm.trans hf'
  · rintro w x y rfl hpc hk
    have hno := hrun w y hpc hk
    exfalso
    cases h with
    | task _ hpc' _ htask =>
      cases hpc.symm.trans hpc'
      cases htask <;> simp_all [TaskPc.usesConnector]

/-- A step in which the connector is not called and no operation goes on. -/
theorem serves_of_label (hl : l.continues = true) (hexec : ∀ t x, l ≠ .exec t x)
    (htask : ∀ w x, l ≠ .work w (.task (.connector x))) : Serves D db k s l := by
  refine ⟨Continues.proper (s := s) hl, ?_, fun t x _ _ e => absurd e (hexec t x),
    fun w x _ e => absurd e (htask w x)⟩
  rintro t c rfl
  cases hl

/-- A step of an operation. -/
theorem serves_exec {t : Thread} {x : Outcome}
    (h : ∀ pc q, s.frame t = .query pc q → q.ticket = k → D.ServesQuery db q pc x) :
    Serves D db k s (.exec t x) := by
  refine ⟨Continues.proper (s := s) rfl, by simp, ?_, by simp⟩
  rintro u y pc q e hf hq
  cases e
  exact h pc q hf hq

/-- A call of the connector in a task. -/
theorem serves_task {w : Worker} {x : Execution} {y : Outcome} (hpc : s.pc w = .run x)
    (h : D.ServesTask db x.task x.pc y) : Serves D db k s (.work w (.task (.connector y))) := by
  refine ⟨Continues.proper (s := s) (l := .work w (.task (.connector y))) rfl, by simp, by simp, ?_⟩
  rintro v z x' e hpc' -
  cases e
  cases hpc.symm.trans hpc'
  exact h

/-! ### The call -/

/-- The first ID is taken from a result that is not empty. -/
def FirstInts (s : State) : Prop := ∀ t q, s.frame t ≠ .query (.resultGetFirstInt []) q

theorem FirstInts.step (hs : FirstInts s) (h : Step s l s') : FirstInts s' := by
  intro t q
  by_cases ht : l.thread = some t
  · cases h with
    | loop | task => cases ht
    | query _ hq =>
      cases ht
      rw [State.goto_frame_self]
      cases hq <;> simp_all
    | dtorJoinThrow => exact hs t q
    | _ =>
      cases ht
      simp
  · rw [h.frame_of_ne ht]
    exact hs t q

theorem Served.firstInts (h : Served D db k (s, A)) : FirstInts s :=
  h.invariant (I := fun p => FirstInts p.1) (fun _ _ e => (by cases e)) fun _ _ _ hs _ hst =>
    hs.step (step_cases (Machine.observe_step_eq_some_iff.1 hst).1).2

/-- How many calls of the connector are still to come. -/
def QueryPc.ahead : QueryPc → ℕ
  | .openConnection => 6
  | .createTransaction => 5
  | .quoteString => 4
  | .executeQuery _ => 3
  | .resultIsEmpty _ => 2
  | .resultGetFirstInt _ => 1
  | .enqueue _ | .push _ | .notify => 0

/-- The lookup of an exchange has an answer. -/
theorem answers_exchangeIds (exchange : String) :
    D.Answers db (exchangeQuery (D.quoteString exchange))
      (.ids (db.exchangeIds (D.denoted exchange))) :=
  ⟨D.denoted exchange, D.parse_exchangeIds exchange, rfl⟩

/-- A call of the connector can be served, and the call goes on or returns an error. -/
theorem exists_queryStep (D : Dialect) (db : Database) (q : Query) {pc : QueryPc}
    (hc : pc.usesConnector = true) (hfirst : pc ≠ .resultGetFirstInt [])
    (hquery : ∀ query, pc = .executeQuery query →
      query = exchangeQuery (D.quoteString q.exchange)) :
    ∃ x f, (∀ (s : State) t, s.pgMessageQuery t q pc x = some (s.goto t f)) ∧
      D.ServesQuery db q pc x ∧
      ((∀ R : Record, (R.exec q pc x f).stage = .refused) ∨
        ∃ pc', f = .query pc' q ∧ pc' ≠ .notify ∧ pc'.ahead < pc.ahead) := by
  cases pc with
  | openConnection => exact ⟨.ok, _, fun _ _ => rfl, rfl, Or.inr ⟨_, rfl, by simp, by decide⟩⟩
  | createTransaction =>
    by_cases hne : q.exchange = ""
    · exact ⟨.ok, _, fun _ _ => if_neg (not_not.2 hne), rfl,
        Or.inr ⟨_, rfl, by simp, by simp [QueryPc.ahead]⟩⟩
    · exact ⟨.ok, _, fun _ _ => if_pos hne, rfl, Or.inr ⟨_, rfl, by simp, by decide⟩⟩
  | quoteString =>
    exact ⟨_, _, fun _ _ => rfl, rfl, Or.inr ⟨_, rfl, by simp, by simp [QueryPc.ahead]⟩⟩
  | executeQuery query =>
    obtain rfl := hquery query rfl
    exact ⟨.ids (db.exchangeIds (D.denoted q.exchange)), _, fun _ _ => rfl,
      answers_exchangeIds q.exchange, Or.inr ⟨_, rfl, by simp, by simp [QueryPc.ahead]⟩⟩
  | resultIsEmpty r =>
    by_cases hr : r = []
    · exact ⟨.ok, _, fun _ _ => if_pos hr, rfl, Or.inl fun _ => rfl⟩
    · exact ⟨.ok, _, fun _ _ => if_neg hr, rfl, Or.inr ⟨_, rfl, by simp, by simp [QueryPc.ahead]⟩⟩
  | resultGetFirstInt r =>
    cases r with
    | nil => exact absurd rfl hfirst
    | cons i r =>
      exact ⟨.ok, _, fun _ _ => rfl, rfl, Or.inr ⟨_, rfl, by simp, by simp [QueryPc.ahead]⟩⟩
  | enqueue | push | notify => cases hc

/-- The call of the record has queued its task or was refused. -/
def Record.Left (R : Record) : Prop := R.stage ≠ .notCalled ∧ ∀ t, R.stage ≠ .calling t

section Call

variable {t : Thread} {q : Query}

theorem pg_step_query (hrun : s.halted = false) {pc : QueryPc} (hf : s.frame t = .query pc q)
    (x : Outcome) : pg.step s (.exec t x) = s.pgMessageQuery t q pc x := by
  simp [pg_step_exec hrun, State.exec, hf]

/-- At `push`, the task is queued. -/
theorem canServe_push (h : Served D db k (s, A)) {task : Task}
    (hf : s.frame t = .query (.push task) q) (hq : q.ticket = k) :
    CanServe D db k (s, A) fun p => (p.2 k).Left := by
  have hst : pg.step s (.exec t .ok) = some ((s.setPool q.client
      { s.pool q.client with tasks := (s.pool q.client).tasks ++ [task] }.unlock).goto t
        (.query .notify q)) := by
    rw [pg_step_query h.running hf]
    simp [State.pgMessageQuery, ThreadPool.enqueue, h.alive.stop]
  refine .head h (serves_exec fun pc q' hf' _ => ?_) hst fun _ => .here ?_
  · cases hf.symm.trans hf'
    rfl
  · have hk : s.ticket (.exec t .ok) = some k := by simp [State.ticket, hf, hq]
    simp [Record.Left, account_self hk, Record.note, hf, Record.exec]

/-- At `enqueue`, the queue mutex is locked once it is free. -/
theorem canServe_enqueue (h : Served D db k (s, A)) {task : Task}
    (hf : s.frame t = .query (.enqueue task) q) (hq : q.ticket = k) :
    CanServe D db k (s, A) fun p => (p.2 k).Left := by
  have hfree {s : State} {A : ℕ → Record} (h : Served D db k (s, A))
      (hf : s.frame t = .query (.enqueue task) q) (hm : (s.pool q.client).queueMutex = none) :
      CanServe D db k (s, A) fun p => (p.2 k).Left := by
    have hst : pg.step s (.exec t .ok) = some ((s.setPool q.client
        { s.pool q.client with queueMutex := some t }).goto t (.query (.push task) q)) := by
      rw [pg_step_query h.running hf]
      simp [State.pgMessageQuery, ThreadPool.lock, hm]
    refine .head h (serves_exec fun pc q' hf' _ => ?_) hst fun h' =>
      canServe_push h' (State.goto_frame_self ..) hq
    cases hf.symm.trans hf'
    rfl
  by_cases hm : (s.pool q.client).queueMutex = none
  · exact hfree h hf hm
  · obtain ⟨l, s', hl, hst, hm', -, -⟩ := exists_release h.proper h.running hm
    have hne : l.thread ≠ some t := by
      rintro ht
      rcases hl with ⟨w, rfl⟩ | ⟨u, rfl, hlocks⟩
      · cases ht
      · cases ht
        simp [hf, Frame.locksQueue] at hlocks
    refine .head h ?_ hst fun h' => hfree h' ?_ hm'
    · rcases hl with ⟨w, rfl⟩ | ⟨u, rfl, hlocks⟩
      · exact serves_of_label rfl (by simp) (by simp)
      · refine serves_exec fun pc q' hf' _ => ?_
        rw [hf'] at hlocks
        cases pc <;> first | rfl | cases hlocks
    · rw [(step_cases hst).2.frame_of_ne hne, hf]

/-- **The call comes to its end**: it queues its task or is refused. -/
theorem canServe_called (h : Served D db k (s, A)) {pc : QueryPc} (hf : s.frame t = .query pc q)
    (hq : q.ticket = k) (hpc : pc ≠ .notify) :
    CanServe D db k (s, A) fun p => (p.2 k).Left := by
  obtain ⟨n, hn⟩ : ∃ n, pc.ahead ≤ n := ⟨_, le_rfl⟩
  induction n generalizing s A pc with
  | zero =>
    cases pc with
    | enqueue task => exact canServe_enqueue h hf hq
    | push task => exact canServe_push h hf hq
    | notify => exact absurd rfl hpc
    | _ => simp [QueryPc.ahead] at hn
  | succ n ih =>
    by_cases hc : pc.usesConnector = true
    · obtain ⟨-, ⟨callback, rfl⟩, hreach, -⟩ := (h.tickets.ticket k).calling hf hq hpc
      have hquery : ∀ query, pc = .executeQuery query →
          query = exchangeQuery (D.quoteString (A k).exchange) := by
        rintro query rfl
        obtain ⟨-, str, hstr, rfl⟩ := hreach
        rw [h.informed.literal str hstr]
      obtain ⟨x, f, hexec, hserve, hcases⟩ := exists_queryStep D db
        ⟨k, (A k).client, callback, (A k).exchange⟩ hc
        (fun e => h.firstInts t _ (e ▸ hf)) hquery
      have hst : pg.step s (.exec t x) = some (s.goto t f) := by
        rw [pg_step_query h.running hf]
        exact hexec s t
      refine .head h (serves_exec fun pc' q' hf' _ => ?_) hst fun h' => ?_
      · cases hf.symm.trans hf'
        exact hserve
      · rcases hcases with hrefused | ⟨pc', rfl, hpc', hlt⟩
        · have hk : s.ticket (.exec t x) = some k := by simp [State.ticket, hf]
          refine .here ?_
          simp [Record.Left, account_self hk, Record.note, hf, hrefused]
        · exact ih h' (State.goto_frame_self ..) hpc' (by omega)
    · cases pc with
      | enqueue task => exact canServe_enqueue h hf hq
      | push task => exact canServe_push h hf hq
      | notify => exact absurd rfl hpc
      | _ => exact absurd rfl hc

end Call

/-! ### The return -/

/-- A call that has queued its task, and has not returned, is about to. -/
def Returning (s : State) (k : ℕ) (R : Record) : Prop :=
  R.queued ≠ [] → R.result = none → ∃ t q, s.frame t = .query .notify q ∧ q.ticket = k

theorem Returning.step (hs : Tickets s A) (h : Step s l s') (hR : Returning s k (A k)) :
    Returning s' k (account A s l s' k) := by
  by_cases hk : s.ticket l = some k
  · rw [account_self hk]
    intro hq hres
    have hcall : ∀ t pc q, s.frame t = .query pc q → q.ticket = k → pc ≠ .notify →
        (A k).queued = [] := fun t pc q hf hq hpc => ((hs.ticket k).calling hf hq hpc).2.2.2.1
    cases h with
    | loop => exact hR hq hres
    | @task w a _ x _ pc _ hx =>
      have hsame : ((A k).task x a pc).queued = (A k).queued ∧
          ((A k).task x a pc).result = (A k).result := by
        unfold Record.task Record.connector
        constructor <;> split <;> split <;> rfl
      simp only [Record.note, hx, State.setInvoked_pc, State.setMutex_pc, State.setPc_pc_self]
        at hq hres
      rw [hsame.1] at hq
      rw [hsame.2] at hres
      exact hR hq hres
    | callQuery =>
      obtain rfl : s.next = k := by simpa [State.ticket] using hk
      exact absurd ((hs.ticket _).queued_nil (Or.inl (hs.fresh _ le_rfl))) hq
    | @query t pc q x f hf hst =>
      simp only [State.ticket, hf, Option.some.injEq] at hk
      have hnil := hcall t pc q hf hk (by rintro rfl; cases hst.usesConnector)
      simp only [Record.note, hf, State.goto_frame_self] at hq
      cases hst <;> simp_all [Record.exec]
    | enqueue hf | pushStopped hf =>
      simp only [State.ticket, hf, Option.some.injEq] at hk
      have hnil := hcall _ _ _ hf hk (by simp)
      simp [Record.note, hf, Record.exec, hnil] at hq
    | push hf =>
      simp only [State.ticket, hf, Option.some.injEq] at hk
      exact ⟨_, _, State.goto_frame_self .., hk⟩
    | notifyOne | notifyNobody => cases hres
    | callDestructor => simp [State.ticket] at hk
    | dtorLock hf | dtorStop hf | dtorNotify hf | dtorJoin hf | dtorJoinThrow hf | dtorDone hf =>
      simp [State.ticket, hf] at hk
  · rw [account_of_ne hk]
    intro hq hres
    obtain ⟨t, q, hf, hqk⟩ := hR hq hres
    exact ⟨t, q, ((sameAt_of_ne hs h hk).frame t _ q hqk).2 hf, hqk⟩

theorem Served.returning (h : Served D db k (s, A)) : Returning s k (A k) := by
  refine h.invariant_of (I := fun p => Tickets p.1 p.2) (J := fun p => Returning p.1 k (p.2 k))
    ?_ (fun hq => absurd rfl hq) ?_
  · intro p hp
    have hp : Served D db k (p.1, p.2) := hp
    exact hp.tickets
  · intro p l p' htickets hret _ hst
    obtain ⟨hstep, hA⟩ := Machine.observe_step_eq_some_iff.1 hst
    rw [hA]
    exact hret.step htickets (step_cases hstep).2

/-- Some label of `notify_one` can be executed. -/
theorem exists_notifyOne (P : Pool) : ∃ i P', P.notifyOne i = some P' := by
  by_cases h : ∃ i, (P.workers i).sleeping = true
  · obtain ⟨i, hi⟩ := h
    exact ⟨some i, _, if_pos hi⟩
  · push Not at h
    exact ⟨none, P, if_pos fun i => eq_false_of_ne_true (h i)⟩

/-- **The call returns.** -/
theorem canServe_returned (h : Served D db k (s, A)) (hR : (A k).Left) :
    CanServe D db k (s, A) fun p => (p.2 k).result ≠ none := by
  by_cases hres : (A k).result = none
  · have hq : (A k).queued ≠ [] := by
      have hloc := (h.tickets.ticket k).located
      unfold State.Located at hloc
      cases hstage : (A k).stage <;> simp only [hstage] at hloc
      case notCalled => exact absurd hstage hR.1
      case calling t => exact absurd hstage (hR.2 t)
      case refused => simp [hres] at hloc
      case queued =>
        obtain ⟨-, -, -, task, hO⟩ := hloc
        simp [hO.queued]
      case executing =>
        obtain ⟨-, -, x, -, hO, -⟩ := hloc
        simp [hO.queued]
      case ended =>
        obtain ⟨task, hO, -⟩ := hloc
        simp [hO.queued]
    obtain ⟨t, q, hf, hqk⟩ := h.returning hq hres
    obtain ⟨i, P, hP⟩ := exists_notifyOne (s.pool q.client)
    have hst : pg.step s (.notify t i) = some ((s.setPool q.client P).goto t
        (.idle (some (.status .pgSuccess)))) := by
      simp [pg_step_notify h.running, State.notify, hf, hP]
    refine .head h (serves_of_label rfl (by simp) (by simp)) hst fun _ => .here ?_
    have hk : s.ticket (.notify t i) = some k := by simp [State.ticket, hf, hqk]
    simp [account_self hk, Record.note]
  · exact .here hres

/-! ### The task -/

section Task

variable {c : ClientId} {w : Worker}

/-- A queued task stays where it is until a worker takes it. -/
theorem Tickets.queued_step (hs : Tickets s A) (h : Step s l s')
    (hR : (A k).stage = .queued c) : (account A s l s' k).stage = .queued c ∨
      ∃ w x, s'.pc w = .run x ∧ x.task.ticket = k := by
  by_cases hk : s.ticket l = some k
  · have hk' := hk
    rw [account_self hk]
    have hcalling : ∀ t, (A k).stage ≠ .calling t := by simp [hR]
    cases h with
    | @loop w a P hP =>
      simp only [State.ticket] at hk
      split at hk
      · rename_i task tasks hpc hold
        refine Or.inr ⟨w, task.start, ?_, Option.some.inj hk⟩
        cases hP <;> simp_all [State.pc]
      · cases hk
    | task _ hx =>
      simp only [State.ticket, hx, Option.some.injEq] at hk
      have := (hs.ticket k).run _ _ hx hk
      simp [hR] at this
    | callQuery =>
      obtain rfl : s.next = k := by simpa [State.ticket] using hk
      have := hs.fresh s.next le_rfl
      simp [hR] at this
    | @query t pc q x f hf hst =>
      simp only [State.ticket, hf, Option.some.injEq] at hk
      cases (hs.ticket k).eq_notify hcalling hf hk
      cases hst.usesConnector
    | enqueue hf | push hf | pushStopped hf =>
      simp only [State.ticket, hf, Option.some.injEq] at hk
      cases (hs.ticket k).eq_notify hcalling hf hk
    | notifyOne | notifyNobody => exact Or.inl hR
    | callDestructor => simp [State.ticket] at hk
    | dtorLock hf | dtorStop hf | dtorNotify hf | dtorJoin hf | dtorJoinThrow hf | dtorDone hf =>
      simp [State.ticket, hf] at hk
  · rw [account_of_ne hk]
    exact Or.inl hR

/-- **A queued task starts.** -/
theorem canServe_started (h : Served D db k (s, A)) (hR : (A k).stage = .queued c) :
    CanServe D db k (s, A) fun p => ∃ w x, p.1.pc w = .run x ∧ x.task.ticket = k := by
  have hloc := (h.tickets.ticket k).located
  simp only [State.Located, hR] at hloc
  obtain ⟨-, -, -, task, hO⟩ := hloc
  have hmem : task ∈ (s.pool c).tasks := by
    have htasks := (h.tickets.ticket k).tasks c
    rw [if_pos hR, hO.queued] at htasks
    exact (List.mem_filter.1 (show task ∈ s.tasksOf k c by simp [htasks])).1
  obtain ⟨s', hr, i, hi⟩ := exists_started h.proper hmem
  have hticket := hO.ticket
  clear hmem hO
  -- until the task starts, the query takes part in no step
  induction hr using Relation.ReflTransGen.head_induction_on generalizing A with
  | refl => exact .here ⟨_, _, hi, hticket⟩
  | @head s₁ _ hst hr ih =>
    obtain ⟨l, hl, hst⟩ := hst
    have hstep := (step_cases hst).2
    have hserve : Serves D db k s₁ l := by
      refine serves_of_continues (h.tickets.ticket k) (by simp [hR]) (fun w x hx hk => ?_) hl hstep
      have := (h.tickets.ticket k).run w x hx hk
      simp [hR] at this
    refine .head h hserve hst fun h' => ?_
    rcases h.tickets.queued_step hstep hR with hR' | hstarted
    · exact ih h' hR'
    · exact .here hstarted

/-- How many calls of the connector are still to come. -/
def TaskPc.ahead : TaskPc → ℕ
  | .openConnection => 6
  | .createTransaction => 5
  | .prepareStatement => 4
  | .executePrepared => 3
  | .executeQuery => 2
  | .resultGetAll _ => 1
  | .lock _ | .call _ | .callback _ | .unlock => 0

/-- A call of the connector can be served, and the task goes on. -/
theorem exists_taskStep {x : Execution} (hx : x.pc.usesConnector = true)
    (hans : ∃ messages, D.Answers db x.task.query (.messages messages)) :
    ∃ y pc, x.queryExchange (.connector y) = some (.run ⟨x.task, pc⟩) ∧
      D.ServesTask db x.task x.pc y ∧ pc.ahead < x.pc.ahead := by
  obtain ⟨task, pc⟩ := x
  obtain ⟨messages, hans⟩ := hans
  cases pc with
  | executeQuery => exact ⟨.messages messages, _, rfl, hans, by simp [TaskPc.ahead]⟩
  | resultGetAll r => exact ⟨.ok, _, rfl, rfl, by simp [TaskPc.ahead]⟩
  | lock | call | callback | unlock => cases hx
  | _ => exact ⟨.ok, _, rfl, rfl, by simp [TaskPc.ahead]⟩

/-- The task comes to `mMutex.lock()`. -/
theorem canServe_locks (h : Served D db k (s, A)) {x : Execution} (hpc : s.pc w = .run x)
    (hk : x.task.ticket = k) (hans : ∃ messages, D.Answers db x.task.query (.messages messages)) :
    CanServe D db k (s, A) fun p =>
      ∃ x, p.1.pc w = .run x ∧ x.task.ticket = k ∧ x.pc.usesConnector = false := by
  obtain ⟨n, hn⟩ : ∃ n, x.pc.ahead ≤ n := ⟨_, le_rfl⟩
  induction n generalizing s A x with
  | zero =>
    refine .here ⟨x, hpc, hk, ?_⟩
    obtain ⟨task, pc⟩ := x
    cases pc <;> first | rfl | simp [TaskPc.ahead] at hn
  | succ n ih =>
    by_cases hc : x.pc.usesConnector = true
    · obtain ⟨y, pc, hy, hserve, hlt⟩ := exists_taskStep hc hans
      have hback : ∀ messages, x.pc ≠ .callback messages := by
        intro messages hm
        simp [hm, TaskPc.usesConnector] at hc
      obtain ⟨last, hf⟩ := (callbackFrames_of_reachable h.proper).idle_of_run hpc hback
      exact .head h (serves_task hpc hserve) (pg_step_task h.running hf hpc rfl hy) fun h' =>
        ih h' (State.setPc_pc_self ..) hk hans (by simp only; omega)
    · exact .here ⟨x, hpc, hk, eq_false_of_ne_true hc⟩

/-- The task has left the connector behind. -/
structure Locks (s : State) (w : Worker) (k : ℕ) (R : Record) : Prop where
  stage : R.stage = .executing w ∨ R.stage = .ended
  run : ∀ v x, s.pc v = .run x → x.task.ticket = k → x.pc.usesConnector = false

theorem Locks.step (hs : Tickets s A) (h : Step s l s') (hL : Locks s w k (A k)) :
    Locks s' w k (account A s l s' k) := by
  refine ⟨hs.executing_step h hL.stage, fun v x hx hk => ?_⟩
  have hm := h.pc_move v
  rw [hx] at hm
  generalize hpc : LoopPc.run x = pc at hm
  cases hm with
  | same => exact hL.run v x hpc.symm hk
  | notify => exact hL.run v x (LoopPc.notify_eq_run_iff.1 hpc.symm) hk
  | loop hP =>
    cases hP with
    | @take task tasks _ htasks =>
      obtain rfl : x = task.start := by simpa using hpc
      have hmem : task ∈ (s.pool v.client).tasks := by simp [htasks]
      have := (hs.ticket k).queued_of_mem hmem hk
      rcases hL.stage with hR | hR <;> simp [hR] at this
    | _ => simp at hpc
  | @task a last y _ _ hy hstep =>
    have htask : x.task = y.task := by
      cases hstep <;> cases hpc <;> rfl
    have hold := hL.run v y hy (htask ▸ hk)
    cases hstep <;> cases hpc <;> simp_all [TaskPc.usesConnector]

/-- A call without a task, and a call whose task has ended, have none that waits or executes. -/
theorem Ticket.not_pending (h : Ticket s k R) (hq : ∀ c, R.stage ≠ .queued c)
    (he : ∀ w, R.stage ≠ .executing w) : ¬ s.Pending k := by
  rintro (⟨c, task, hmem, hk⟩ | ⟨w, x, hx, hk⟩)
  · exact hq c (h.queued_of_mem hmem hk)
  · exact he w (h.run w x hx hk)

/-- **A task that has left the connector behind ends.** -/
theorem canServe_ended (h : Served D db k (s, A)) {x : Execution} (hpc : s.pc w = .run x)
    (hL : Locks s w k (A k)) : CanServe D db k (s, A) fun p => ¬ p.1.Pending k := by
  obtain ⟨s', hr, hfree⟩ := exists_ended h.proper hpc
  clear hpc
  induction hr using Relation.ReflTransGen.head_induction_on generalizing A with
  | refl =>
    have ht := h.tickets.ticket k
    refine .here (ht.not_pending (fun c hR => ?_) fun v hR => ?_)
    · rcases hL.stage with e | e <;> simp [e] at hR
    · have hloc := ht.located
      simp only [State.Located, hR] at hloc
      obtain ⟨-, -, y, hy, -⟩ := hloc
      rcases hL.stage with e | e <;> simp_all
  | @head s₁ _ hst hr ih =>
    obtain ⟨l, hl, hst⟩ := hst
    have hstep := (step_cases hst).2
    have hserve : Serves D db k s₁ l := by
      refine serves_of_continues (h.tickets.ticket k) (fun t hR => ?_) hL.run hl hstep
      rcases hL.stage with e | e <;> simp [e] at hR
    exact .head h hserve hst fun h' => ih h' (hL.step h.tickets hstep)

/-- **The task of the query ends.** -/
theorem canServe_settled (h : Served D db k (s, A)) (hR : (A k).Left)
    (hans : ∀ task : Task, ∃ messages, D.Answers db task.query (.messages messages)) :
    CanServe D db k (s, A) fun p => ¬ p.1.Pending k := by
  have hrun {s : State} {A : ℕ → Record} (h : Served D db k (s, A)) {w : Worker} {x : Execution}
      (hpc : s.pc w = .run x) (hk : x.task.ticket = k) :
      CanServe D db k (s, A) fun p => ¬ p.1.Pending k := by
    refine (canServe_locks h hpc hk (hans x.task)).trans h fun p h' hx => ?_
    obtain ⟨y, hpc', hk', hc⟩ := hx
    have h' : Served D db k (p.1, p.2) := h'
    have hstage := (h'.tickets.ticket k).run w y hpc' hk'
    refine canServe_ended h' hpc' ⟨Or.inl hstage, fun v z hz hzk => ?_⟩
    have := (h'.tickets.ticket k).run v z hz hzk
    rw [hstage] at this
    cases this
    rw [hpc'] at hz
    cases hz
    exact hc
  cases hstage : (A k).stage with
  | notCalled => exact absurd hstage hR.1
  | calling t => exact absurd hstage (hR.2 t)
  | refused | ended =>
    exact .here ((h.tickets.ticket k).not_pending (by simp [hstage]) (by simp [hstage]))
  | queued c =>
    refine (canServe_started h hstage).trans h fun p h' hx => ?_
    obtain ⟨w, x, hpc, hk⟩ := hx
    exact hrun h' hpc hk
  | executing w =>
    have hloc := (h.tickets.ticket k).located
    simp only [State.Located, hstage] at hloc
    obtain ⟨-, -, x, hpc, hO, -⟩ := hloc
    exact hrun h hpc hO.ticket

end Task

/-! ### All together -/

/-- A call that was entered is for the same exchange later, and does not return twice. -/
structure Record.Kept (R R' : Record) : Prop where
  exchange : R'.exchange = R.exchange
  result : R.result ≠ none → R'.result ≠ none
  entered : R.stage ≠ .notCalled → R'.stage ≠ .notCalled

theorem Record.Kept.refl (R : Record) : R.Kept R := ⟨rfl, id, id⟩

theorem Record.Kept.trans {R R' R'' : Record} (h : R.Kept R') (h' : R'.Kept R'') : R.Kept R'' :=
  ⟨h'.exchange.trans h.exchange, h'.result ∘ h.result, h'.entered ∘ h.entered⟩

theorem Record.Kept.exec {q : Query} {pc : QueryPc} {x : Outcome} {f : Frame} :
    R.Kept (R.exec q pc x f) := by
  unfold Record.exec
  split <;> exact ⟨rfl, by simp, by simp⟩

theorem Record.Kept.task {x : Execution} {a : TaskAct} {pc : LoopPc Execution} :
    R.Kept (R.task x a pc) := by
  unfold Record.task Record.connector
  split <;> split <;> exact ⟨rfl, by simp, by simp⟩

theorem Tickets.kept_step (hs : Tickets s A) (h : Step s l s') (hR : (A k).stage ≠ .notCalled) :
    (A k).Kept (account A s l s' k) := by
  by_cases hk : s.ticket l = some k
  · rw [account_self hk]
    cases h with
    | loop => exact ⟨rfl, id, by simp [Record.note]⟩
    | task _ hx =>
      simp only [Record.note, hx]
      exact .task
    | callQuery =>
      obtain rfl : s.next = k := by simpa [State.ticket] using hk
      exact absurd (hs.fresh s.next le_rfl) hR
    | query hf | enqueue hf | push hf | pushStopped hf =>
      simp only [Record.note, hf]
      exact .exec
    | notifyOne | notifyNobody => exact ⟨rfl, by simp [Record.note], id⟩
    | callDestructor => simp [State.ticket] at hk
    | dtorLock hf | dtorStop hf | dtorNotify hf | dtorJoin hf | dtorJoinThrow hf | dtorDone hf =>
      simp [State.ticket, hf] at hk
  · rw [account_of_ne hk]
    exact .refl _

theorem Served.kept {p : State × (ℕ → Record)} (h : Served D db k (s, A))
    (hR : (A k).stage ≠ .notCalled)
    (hr : accounted.ReachableWhere (fun p l => Serves D db k p.1 l) (s, A) p) :
    (A k).Kept (p.2 k) := by
  refine (hr.invariant (I := fun p => Served D db k (p.1, p.2) ∧ (A k).Kept (p.2 k))
    ⟨h, .refl _⟩ fun p l p' hp hl hst => ?_).2
  obtain ⟨hp, hkept⟩ := hp
  obtain ⟨hstep, hA⟩ := Machine.observe_step_eq_some_iff.1 hst
  rw [hA]
  exact ⟨hp.step hl hstep,
    hkept.trans (hp.tickets.kept_step (step_cases hstep).2 (hkept.entered hR))⟩

/-- A call that has returned has queued its task or was refused. -/
theorem Ticket.left_of_result (h : Ticket s k R) (hR : R.result ≠ none) : R.Left := by
  have hloc := h.located
  refine ⟨fun hstage => ?_, fun t hstage => ?_⟩
  · simp only [State.Located, hstage] at hloc
    exact hR (by rw [hloc.1])
  · simp only [State.Located, hstage] at hloc
    exact hR hloc.2.2.1

/-- **A query that was entered can be completed**, from every state that a served run reaches. -/
theorem exists_completed (h : Served D db k (s, A)) (hR : (A k).stage ≠ .notCalled)
    (hans : ∀ task : Task, ∃ messages, D.Answers db task.query (.messages messages)) :
    CanServe D db k (s, A) fun p =>
      (p.2 k).exchange = (A k).exchange ∧ (p.2 k).result ≠ none ∧ ¬ p.1.Pending k := by
  have hleft : CanServe D db k (s, A) fun p => (p.2 k).Left := by
    by_cases hcall : ∃ t, (A k).stage = .calling t
    · obtain ⟨t, hstage⟩ := hcall
      have hloc := (h.tickets.ticket k).located
      simp only [State.Located, hstage] at hloc
      obtain ⟨⟨pc, callback, hf, hreach⟩, -⟩ := hloc
      refine canServe_called h hf rfl ?_
      rintro rfl
      exact hreach
    · exact .here ⟨hR, fun t hstage => hcall ⟨t, hstage⟩⟩
  obtain ⟨p₁, hr₁, hp₁⟩ := hleft
  have h₁ : Served D db k (p₁.1, p₁.2) := Machine.ReachableWhere.trans h hr₁
  obtain ⟨p₂, hr₂, hp₂⟩ := canServe_returned h₁ hp₁
  have h₂ : Served D db k (p₂.1, p₂.2) := Machine.ReachableWhere.trans h₁ hr₂
  have hleft₂ := (h₂.tickets.ticket k).left_of_result hp₂
  obtain ⟨p₃, hr₃, hp₃⟩ := canServe_settled h₂ hleft₂ hans
  refine ⟨p₃, hr₁.trans (hr₂.trans hr₃), ?_, (h₂.kept hleft₂.1 hr₃).result hp₂, hp₃⟩
  exact (h.kept hR (hr₁.trans (hr₂.trans hr₃))).exchange

end Comyno.Pg
