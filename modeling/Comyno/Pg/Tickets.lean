import Comyno.Conc.Refine
import Comyno.Pg.Destruction
import Comyno.Pg.Drain

/-!
# The records of the queries

`account` observes a run of the process and keeps a record of every call of `pgMessageQuery`: what
the lookup of its exchange returned, the tasks it has queued, its status, and what became of its
task.  The calls are told apart by their tickets.

## Main definitions

* `Record`, `account` : the observer.
* `Ticket` : the invariant of one call.  A call has queued either no task or one task, which is in
  one place (the queue of its client, or a worker), and the record says what has happened to it.

## Main results

* `sameAt_of_ne` : a step that acts for another call leaves everything of this call alone.
* `tickets_of_reachable` : the invariant holds of all calls, in every run with proper callbacks.
-/

namespace Comyno.Pg

open Conc

/-! ### The observer -/

/-- What a call of `pgMessageQuery` has come to. -/
inductive Stage where
  | notCalled
  /-- `t` executes the call, which has not queued its task yet. -/
  | calling (t : Thread)
  /-- The call returned an error. -/
  | refused
  /-- The task is in the queue of `c`. -/
  | queued (c : ClientId)
  | executing (w : Worker)
  /-- The task has ended. -/
  | ended
  deriving DecidableEq, Repr

/-- A call of `pgMessageQuery` and its task. -/
structure Record where
  client : ClientId := 0
  exchange : String := ""
  /-- What `quoteString` returned for the exchange. -/
  literal : Option String := none
  /-- The query that looks up the exchange, and the IDs it returned. -/
  lookup : Option (String × List ℤ) := none
  /-- The tasks that were queued, and where. -/
  queued : List (ClientId × Task) := []
  /-- What the call returned. -/
  result : Option PGStatus := none
  /-- The query that the task executed, and the messages it returned. -/
  select : Option (String × List Message) := none
  /-- A call of the connector threw in the task. -/
  failed : Bool := false
  stage : Stage := .notCalled
  deriving DecidableEq, Repr

/-- The call made by the step `x` of `pgMessageQuery`, which continues at `f`. -/
def Record.exec (R : Record) (q : Query) (pc : QueryPc) (x : Outcome) (f : Frame) : Record :=
  match pc, x, f with
  | .quoteString, .quoted str, _ => { R with literal := some str }
  | .executeQuery query, .ids r, _ => { R with lookup := some (query, r) }
  | .push task, .ok, .query _ _ =>
    { R with queued := R.queued ++ [(q.client, task)], stage := .queued q.client }
  | _, _, .idle (some (.status .pgError)) => { R with result := some .pgError, stage := .refused }
  | _, _, _ => R

/-- The call made by the step `a` of the task. -/
def Record.connector (R : Record) (x : Execution) (a : TaskAct) : Record :=
  match x.pc, a with
  | .executeQuery, .connector (.messages r) => { R with select := some (x.task.query, r) }
  | _, .connector .throw => { R with failed := true }
  | _, _ => R

/-- The step `a` of the task, whose worker continues at `k`. -/
def Record.task (R : Record) (x : Execution) (a : TaskAct) (k : LoopPc Execution) : Record :=
  match k with
  | .run _ => R.connector x a
  | _ => { R.connector x a with stage := .ended }

/-- The call for which a step acts. -/
def State.ticket (s : State) : Label → Option ℕ
  | .call _ (.pgMessageQuery _ _ _) => some s.next
  | .call _ (.destructor _) => none
  | .exec t _ | .notify t _ => match s.frame t with
    | .query _ q => some q.ticket
    | _ => none
  | .work w (.loop _) => match s.pc w, (s.pool w.client).tasks with
    | .check, task :: _ => some task.ticket
    | _, _ => none
  | .work w (.task _) => match s.pc w with
    | .run x => some x.task.ticket
    | _ => none

/-- The record of the call for which the step from `s` to `s'` acts. -/
def Record.note (R : Record) (s : State) (l : Label) (s' : State) : Record :=
  match l with
  | .call t (.pgMessageQuery c _ exchange) =>
    { R with client := c, exchange := exchange, stage := .calling t }
  | .call _ (.destructor _) => R
  | .exec t x => match s.frame t with
    | .query pc q => R.exec q pc x (s'.frame t)
    | _ => R
  | .notify _ _ => { R with result := some .pgSuccess }
  | .work w (.loop _) => { R with stage := .executing w }
  | .work w (.task a) => match s.pc w with
    | .run x => R.task x a (s'.pc w)
    | _ => R

/-- The records after the step from `s` to `s'`. -/
def account (A : ℕ → Record) (s : State) (l : Label) (s' : State) : ℕ → Record :=
  match s.ticket l with
  | some k => Function.update A k ((A k).note s l s')
  | none => A

/-- The messages handed to the callback of the call `k`, one list for each time it was called. -/
def State.calls (s : State) (k : ℕ) : List (List Message) :=
  (s.invoked.filter fun p => p.1 = k).map Prod.snd

/-- The tasks of the call `k` in the queue of `c`. -/
def State.tasksOf (s : State) (k : ℕ) (c : ClientId) : List Task :=
  (s.pool c).tasks.filter fun task => task.ticket = k

/-! ### The invariant -/

/-- The text of the query that looks up an exchange, with what `quoteString` returned for it. -/
def exchangeQuery (str : String) : String :=
  "SELECT ID FROM Exchanges WHERE exchange_name = " ++ str

/-- The ID that the call hands to its task: `-1` for all exchanges, and else the first ID that the
lookup of its own exchange returned. -/
def Record.Identifies (R : Record) (exchangeID : ℤ) : Prop :=
  if R.exchange = "" then exchangeID = -1
  else ∃ str ids, R.literal = some str ∧ R.lookup = some (exchangeQuery str, exchangeID :: ids)

/-- What has been recorded of the call `k` at a program point. -/
def Record.Reached (R : Record) (k : ℕ) : QueryPc → Prop
  | .openConnection | .createTransaction => True
  | .quoteString => R.exchange ≠ ""
  | .executeQuery query => R.exchange ≠ "" ∧ ∃ str, R.literal = some str ∧ query = exchangeQuery str
  | .resultIsEmpty r | .resultGetFirstInt r =>
    R.exchange ≠ "" ∧ ∃ str, R.literal = some str ∧ R.lookup = some (exchangeQuery str, r)
  | .enqueue task | .push task => task.ticket = k ∧ R.Identifies task.exchangeID
  | .notify => False

/-- The only task that the call `k` has queued. -/
structure Record.Owns (R : Record) (k : ℕ) (task : Task) : Prop where
  queued : R.queued = [(R.client, task)]
  ticket : task.ticket = k
  exchangeID : R.Identifies task.exchangeID
  result : R.result ≠ some .pgError

/-- What has been recorded of an executing task at a program point, with the calls of its
callback. -/
def Record.Executed (R : Record) (task : Task) (calls : List (List Message)) : TaskPc → Prop
  | .openConnection | .createTransaction | .prepareStatement | .executePrepared | .executeQuery =>
    calls = []
  | .resultGetAll r | .lock r | .call r => calls = [] ∧ R.select = some (task.query, r)
  | .callback r => calls = [r] ∧ R.select = some (task.query, r)
  | .unlock => ∃ r, calls = [r] ∧ R.select = some (task.query, r)

/-- What has been recorded of a task that has ended. -/
def Record.Completed (R : Record) (task : Task) (calls : List (List Message)) : Prop :=
  if R.failed then calls = [] else ∃ r, calls = [r] ∧ R.select = some (task.query, r)

/-- The record of the call `k` agrees with the state in its stage. -/
def State.Located (s : State) (k : ℕ) (R : Record) : Prop :=
  match R.stage with
  | .notCalled => R = {} ∧ s.calls k = []
  | .calling t => (∃ pc callback, s.frame t = .query pc ⟨k, R.client, callback, R.exchange⟩ ∧
      R.Reached k pc) ∧ R.queued = [] ∧ R.result = none ∧ R.failed = false ∧ s.calls k = []
  | .refused => R.queued = [] ∧ R.result = some .pgError ∧ s.calls k = []
  | .queued c => c = R.client ∧ R.failed = false ∧ s.calls k = [] ∧ ∃ task, R.Owns k task
  | .executing w => w.client = R.client ∧ R.failed = false ∧ ∃ x, s.pc w = .run x ∧
      R.Owns k x.task ∧ R.Executed x.task (s.calls k) x.pc
  | .ended => ∃ task, R.Owns k task ∧ R.Completed task (s.calls k)

/-- The invariant of the call `k`: everything in the state that belongs to the call is where its
record says. -/
structure Ticket (s : State) (k : ℕ) (R : Record) : Prop where
  located : s.Located k R
  frame : ∀ t pc q, s.frame t = .query pc q → q.ticket = k →
    R.stage = .calling t ∨ pc = .notify ∧ R.queued ≠ []
  tasks : ∀ c, s.tasksOf k c = if R.stage = .queued c then R.queued.map Prod.snd else []
  run : ∀ w x, s.pc w = .run x → x.task.ticket = k → R.stage = .executing w

/-- The invariant of all calls. -/
structure Tickets (s : State) (A : ℕ → Record) : Prop where
  ticket : ∀ k, Ticket s k (A k)
  fresh : ∀ k, s.next ≤ k → (A k).stage = .notCalled

theorem Tickets.init : Tickets State.init fun _ => {} := by
  refine ⟨fun k => ⟨⟨rfl, rfl⟩, ?_, ?_, ?_⟩, fun _ _ => rfl⟩
  · intro t pc q h
    cases h
  · exact fun c => rfl
  · intro w x h
    cases h

/-! ### Steps that act for another call -/

/-- Nothing that belongs to the call `k` changes. -/
structure SameAt (k : ℕ) (s s' : State) : Prop where
  frame : ∀ t pc q, q.ticket = k → (s'.frame t = .query pc q ↔ s.frame t = .query pc q)
  tasks : ∀ c, s'.tasksOf k c = s.tasksOf k c
  run : ∀ w x, x.task.ticket = k → (s'.pc w = .run x ↔ s.pc w = .run x)
  calls : s'.calls k = s.calls k

section Other

variable {s s' : State} {l : Label} {k : ℕ} {R : Record} {A : ℕ → Record}

theorem Ticket.congr (h : Ticket s k R) (hs : SameAt k s s') : Ticket s' k R := by
  refine ⟨?_, fun t pc q hf hq => h.frame t pc q ((hs.frame t pc q hq).1 hf) hq,
    fun c => (hs.tasks c).trans (h.tasks c), fun w x hx hk => h.run w x ((hs.run w x hk).1 hx) hk⟩
  have hloc := h.located
  unfold State.Located at hloc ⊢
  rw [hs.calls]
  split at hloc
  · exact hloc
  · obtain ⟨⟨pc, callback, hf, hR⟩, hrest⟩ := hloc
    exact ⟨⟨pc, callback, (hs.frame _ _ _ rfl).2 hf, hR⟩, hrest⟩
  · exact hloc
  · exact hloc
  · obtain ⟨hw, hfail, x, hx, hO, hE⟩ := hloc
    exact ⟨hw, hfail, x, (hs.run _ _ hO.ticket).2 hx, hO, hE⟩
  · exact hloc

/-- A thread that executes a query acts for it. -/
theorem Step.ticket_of_frame (h : Step s l s') {t : Thread} (ht : l.thread = some t) {pc : QueryPc}
    {q : Query} (hf : s.frame t = .query pc q) : s.ticket l = some q.ticket := by
  cases l with
  | work => cases ht
  | call u c =>
    cases ht
    obtain ⟨last, hidle⟩ : ∃ last, s.frame t = .idle last := by
      cases h with
      | callQuery hr | callDestructor hr => exact State.idle_of_ready hr
    simp [hidle] at hf
  | exec | notify =>
    cases ht
    simp [State.ticket, hf]

/-- So does a thread that executes it after the step. -/
theorem Step.ticket_of_frame' (h : Step s l s') {t : Thread} (ht : l.thread = some t)
    {pc : QueryPc} {q : Query} (hf : s'.frame t = .query pc q) : s.ticket l = some q.ticket := by
  rcases h.query_cases hf with ⟨pc', hf'⟩ | ⟨callback, exchange, rfl⟩
  · exact h.ticket_of_frame ht hf'
  · cases h with
    | callQuery =>
      cases ht
      obtain ⟨-, hq⟩ : _ ∧ Query.mk s.next _ callback exchange = q := by simpa using hf
      exact congrArg (fun q => some q.ticket) hq

/-- The task that a call queues is its own. -/
theorem Tickets.ticket_of_push (hs : Tickets s A) {t : Thread} {task : Task} {q : Query}
    (hf : s.frame t = .query (.push task) q) : task.ticket = q.ticket := by
  obtain hstage | ⟨hpc, -⟩ := (hs.ticket q.ticket).frame t _ q hf rfl
  · have hloc := (hs.ticket q.ticket).located
    simp only [State.Located, hstage] at hloc
    obtain ⟨⟨pc, callback, hf', hR⟩, -⟩ := hloc
    obtain ⟨rfl, -⟩ : QueryPc.push task = pc ∧ q = _ := by simpa [hf] using hf'
    exact hR.1
  · cases hpc

theorem State.record_of_ne {x : Execution} {a : TaskAct} (h : x.task.ticket ≠ k) :
    ((s.record x a).filter fun p => p.1 = k) = s.invoked.filter fun p => p.1 = k := by
  cases a <;> simp only [record]
  split <;> simp [h]

/-- **A step that acts for another call changes nothing of this one.** -/
theorem sameAt_of_ne (hs : Tickets s A) (h : Step s l s') (hk : s.ticket l ≠ some k) :
    SameAt k s s' := by
  constructor
  · intro t pc q hq
    by_cases ht : l.thread = some t
    · constructor
      · intro hf
        exact absurd (hq ▸ h.ticket_of_frame' ht hf) hk
      · intro hf
        exact absurd (hq ▸ h.ticket_of_frame ht hf) hk
    · rw [h.frame_of_ne ht]
  · intro c
    have hm := h.tasks_move c
    unfold State.tasksOf
    generalize (s'.pool c).tasks = tasks at hm ⊢
    cases hm with
    | same => rfl
    | @pushed t task q hf =>
      have hne : task.ticket ≠ k := by
        rw [hs.ticket_of_push hf]
        simpa [State.ticket, hf] using hk
      simp [hne]
    | @taken i task tasks hpc hold =>
      have hne : task.ticket ≠ k := by simpa [State.ticket, hpc, hold] using hk
      rw [hold, List.filter_cons_of_neg (by simpa using hne)]
  · intro w x hx
    have hm := h.pc_move w
    generalize s'.pc w = pc at hm ⊢
    cases hm with
    | same => rfl
    | notify => exact LoopPc.notify_eq_run_iff
    | loop hP =>
      refine iff_of_false ?_ (by cases hP <;> simp_all [State.pc])
      cases hP with
      | @take task tasks hpc hold =>
        have hne : task.ticket ≠ k := by
          have hpc' : s.pc w = .check := hpc
          simpa [State.ticket, hpc', hold] using hk
        rintro hrun
        obtain rfl : task.start = x := by simpa using hrun
        exact hne hx
      | _ => simp
    | @task a last y _ hf hy hstep =>
      have hne : y.task.ticket ≠ k := by simpa [State.ticket, hy] using hk
      constructor
      · rintro rfl
        have hxy : x.task = y.task := by
          generalize hr : LoopPc.run x = pc at hstep
          cases hstep <;> cases hr <;> rfl
        exact absurd (hxy ▸ hx) hne
      · intro hrun
        cases hy.symm.trans hrun
        exact absurd hx hne
  · unfold State.calls
    cases h with
    | @task w a last x m pc hf hx hm hstep =>
      have hne : x.task.ticket ≠ k := by simpa [State.ticket, hx] using hk
      exact congrArg (List.map Prod.snd) (State.record_of_ne hne)
    | _ => rfl

end Other

/-! ### Steps of the call -/

/-- Of what belongs to the call `k`, at most the frame of `t` changes. -/
structure SameBut (t : Thread) (k : ℕ) (s s' : State) : Prop where
  frame : ∀ u, u ≠ t → s'.frame u = s.frame u
  tasks : ∀ c, s'.tasksOf k c = s.tasksOf k c
  run : ∀ w x, s'.pc w = .run x ↔ s.pc w = .run x
  calls : s'.calls k = s.calls k

section Call

variable {s s' : State} {t : Thread} {k : ℕ} {R R' : Record}

/-- A call that has queued no task. -/
theorem Ticket.queued_nil (h : Ticket s k R)
    (hR : R.stage = .notCalled ∨ ∃ t, R.stage = .calling t) : R.queued = [] := by
  have hloc := h.located
  rcases hR with hR | ⟨t, hR⟩
  · simp only [State.Located, hR] at hloc
    rw [hloc.1]
  · simp only [State.Located, hR] at hloc
    exact hloc.2.1

/-- The thread that executes the call goes on, with the call or with an error. -/
theorem Ticket.of_frame (h : Ticket s k R) (hR : R.stage = .notCalled ∨ R.stage = .calling t)
    (hs : SameBut t k s s') (hR' : R'.stage = .calling t ∨ R'.stage = .refused)
    (hf : ∀ pc q, s'.frame t = .query pc q → R'.stage = .calling t) (hloc : s'.Located k R') :
    Ticket s' k R' := by
  have hnil := h.queued_nil (hR.imp_right fun h => ⟨t, h⟩)
  refine ⟨hloc, fun u pc q hu hq => Or.inl ?_, fun c => ?_, fun w x hx hk => ?_⟩
  · by_cases hut : u = t
    · subst hut
      exact hf pc q hu
    · rw [hs.frame u hut] at hu
      rcases h.frame u pc q hu hq with hstage | ⟨-, hne⟩
      · rcases hR with hR | hR
        · rw [hR] at hstage
          cases hstage
        · rw [hR] at hstage
          cases hstage
          exact absurd rfl hut
      · exact absurd hnil hne
  · have hno : R'.stage ≠ .queued c := by
      rcases hR' with hR' | hR' <;> simp [hR']
    rw [hs.tasks, h.tasks, hnil, if_neg hno]
    split <;> rfl
  · have hstage := h.run w x ((hs.run w x).1 hx) hk
    rcases hR with hR | hR <;> simp [hR] at hstage

theorem sameBut_goto (f : Frame) : SameBut t k s (s.goto t f) :=
  ⟨fun _ hu => by simp [hu], fun _ => rfl, fun _ _ => Iff.rfl, rfl⟩

/-- A step that leaves the queue of a client and its workers alone. -/
theorem sameBut_setPool {c : ClientId} {P : Pool} {f : Frame} (hP : P.tasks = (s.pool c).tasks)
    (hw : ∀ i x, P.workers i = .run x ↔ (s.pool c).workers i = .run x) :
    SameBut t k s ((s.setPool c P).goto t f) := by
  refine ⟨fun _ hu => by simp [hu], fun d => ?_, fun w x => ?_, rfl⟩
  · unfold State.tasksOf
    by_cases hd : d = c <;> simp [hd, hP]
  · rw [State.goto_pc, State.setPool_pc]
    split
    · rename_i hc
      rw [hw, ← hc]
      rfl
    · rfl

/-- The call at the frame of `t`. -/
theorem Ticket.calling (h : Ticket s k R) {pc : QueryPc} {q : Query}
    (hf : s.frame t = .query pc q) (hq : q.ticket = k) (hpc : pc ≠ .notify) :
    R.stage = .calling t ∧ (∃ callback, q = ⟨k, R.client, callback, R.exchange⟩) ∧
      R.Reached k pc ∧ R.queued = [] ∧ R.result = none ∧ R.failed = false ∧ s.calls k = [] := by
  obtain hstage | ⟨hnotify, -⟩ := h.frame t pc q hf hq
  · refine ⟨hstage, ?_⟩
    have hloc := h.located
    simp only [State.Located, hstage] at hloc
    obtain ⟨⟨pc', callback, hf', hR⟩, hrest⟩ := hloc
    obtain ⟨rfl, rfl⟩ : pc = pc' ∧ q = _ := by simpa [hf] using hf'
    exact ⟨⟨callback, rfl⟩, hR, hrest⟩
  · exact absurd hnotify hpc

/-- A frame of a call that has queued its task, or has ended, is at `notify`. -/
theorem Ticket.eq_notify (h : Ticket s k R) (hR : ∀ t, R.stage ≠ .calling t) {t : Thread}
    {pc : QueryPc} {q : Query} (hf : s.frame t = .query pc q) (hq : q.ticket = k) :
    pc = .notify := by
  by_contra hpc
  exact hR t (h.calling hf hq hpc).1

/-- The call returns an error. -/
theorem Ticket.refuse (h : Ticket s k R) {pc : QueryPc} {q : Query}
    (hf : s.frame t = .query pc q) (hq : q.ticket = k) (hpc : pc ≠ .notify)
    (hs : SameBut t k s s') {last : Option Result} (hf' : s'.frame t = .idle last) :
    Ticket s' k { R with result := some .pgError, stage := .refused } := by
  obtain ⟨hstage, -, -, hnil, -, -, hcalls⟩ := h.calling hf hq hpc
  refine h.of_frame (Or.inr hstage) hs (Or.inr rfl) (fun pc q hpc => ?_) ⟨hnil, rfl, ?_⟩
  · rw [hf'] at hpc
    cases hpc
  · rw [hs.calls, hcalls]

/-- The call comes to its next program point, with what was recorded. -/
theorem Ticket.goes_on (h : Ticket s k R) {pc pc' : QueryPc} {q : Query}
    (hf : s.frame t = .query pc q) (hq : q.ticket = k) (hpc : pc ≠ .notify)
    (hs : SameBut t k s s') (hf' : s'.frame t = .query pc' q) (hR' : R'.stage = R.stage)
    (hsame : R'.client = R.client ∧ R'.exchange = R.exchange ∧ R'.queued = R.queued ∧
      R'.result = R.result ∧ R'.failed = R.failed)
    (hreach : R.Reached k pc → q.exchange = R.exchange → R'.Reached k pc') : Ticket s' k R' := by
  obtain ⟨hstage, ⟨callback, rfl⟩, hR, hnil, hres, hfail, hcalls⟩ := h.calling hf hq hpc
  obtain ⟨hc, he, hq', hr, hfl⟩ := hsame
  have hstage' : R'.stage = .calling t := hR'.trans hstage
  refine h.of_frame (Or.inr hstage) hs (Or.inl hstage') (fun _ _ _ => hstage') ?_
  simp only [State.Located, hstage', hc, he, hq', hr, hfl, hs.calls]
  exact ⟨⟨pc', callback, hf', hreach hR rfl⟩, hnil, hres, hfail, hcalls⟩

/-- The steps of `pgMessageQuery` up to `enqueue`. -/
theorem Ticket.query (h : Ticket s k R) {pc : QueryPc} {q : Query} {x : Outcome} {f : Frame}
    (hf : s.frame t = .query pc q) (hq : q.ticket = k) (hst : QueryStep q pc x f) :
    Ticket (s.goto t f) k (R.exec q pc x f) := by
  have hpc : pc ≠ .notify := by
    rintro rfl
    cases hst.usesConnector
  have hs : SameBut t k s (s.goto t f) := sameBut_goto f
  have hf' : (s.goto t f).frame t = f := State.goto_frame_self s t f
  cases hst with
  | openConnection =>
    exact h.goes_on hf hq hpc hs hf' rfl ⟨rfl, rfl, rfl, rfl, rfl⟩ fun _ _ => trivial
  | createTransaction hne =>
    exact h.goes_on hf hq hpc hs hf' rfl ⟨rfl, rfl, rfl, rfl, rfl⟩ fun _ he hnil =>
      hne (he.trans hnil)
  | createTransactionAll heq =>
    refine h.goes_on hf hq hpc hs hf' rfl ⟨rfl, rfl, rfl, rfl, rfl⟩ fun _ he => ⟨hq, ?_⟩
    exact (if_pos (he.symm.trans heq)).mpr rfl
  | quoteString =>
    exact h.goes_on hf hq hpc hs hf' rfl ⟨rfl, rfl, rfl, rfl, rfl⟩ fun hR _ => ⟨hR, _, rfl, rfl⟩
  | executeQuery =>
    refine h.goes_on hf hq hpc hs hf' rfl ⟨rfl, rfl, rfl, rfl, rfl⟩ fun hR _ => ?_
    obtain ⟨hne, str, hstr, rfl⟩ := hR
    exact ⟨hne, str, hstr, rfl⟩
  | resultIsEmpty => exact h.refuse hf hq hpc hs hf'
  | resultIsNotEmpty =>
    exact h.goes_on hf hq hpc hs hf' rfl ⟨rfl, rfl, rfl, rfl, rfl⟩ fun hR _ => hR
  | resultGetFirstInt =>
    refine h.goes_on hf hq hpc hs hf' rfl ⟨rfl, rfl, rfl, rfl, rfl⟩ fun hR _ => ⟨hq, ?_⟩
    obtain ⟨hne, str, hstr, hlook⟩ := hR
    exact (if_neg hne).mpr ⟨str, _, hstr, hlook⟩
  | throw hc =>
    have hexec : R.exec q pc .throw (.idle (some (.status .pgError))) =
        { R with result := some .pgError, stage := .refused } := by
      cases pc <;> rfl
    rw [hexec]
    exact h.refuse hf hq hpc hs hf'

/-- The call is entered. -/
theorem Ticket.call (h : Ticket s s.next R) (hR : R.stage = .notCalled) {c : ClientId}
    {callback : Bool} {exchange : String} :
    Ticket (s.goto t (.query .openConnection ⟨s.next, c, callback, exchange⟩)).tick s.next
      { R with client := c, exchange := exchange, stage := .calling t } := by
  have hloc := h.located
  simp only [State.Located, hR] at hloc
  obtain ⟨rfl, hcalls⟩ := hloc
  refine h.of_frame (Or.inl hR) ?_ (Or.inl rfl) (fun _ _ _ => rfl) ?_
  · exact ⟨(sameBut_goto (k := s.next) _).frame, fun _ => rfl, fun _ _ => Iff.rfl, rfl⟩
  exact ⟨⟨.openConnection, callback, State.goto_frame_self .., trivial⟩, rfl, rfl, rfl, hcalls⟩

/-- The call queues its task. -/
theorem Ticket.push (h : Ticket s k R) {task : Task} {q : Query}
    (hf : s.frame t = .query (.push task) q) (hq : q.ticket = k) :
    Ticket ((s.setPool q.client
      { s.pool q.client with tasks := (s.pool q.client).tasks ++ [task] }.unlock).goto t
        (.query .notify q)) k
      { R with queued := R.queued ++ [(q.client, task)], stage := .queued q.client } := by
  obtain ⟨hstage, ⟨callback, rfl⟩, hR, hnil, hres, hfail, hcalls⟩ := h.calling hf hq (by simp)
  refine ⟨?_, fun u pc q hu hq => Or.inr ?_, fun c => ?_, fun w x hx hk => ?_⟩
  · exact ⟨rfl, hfail, hcalls, task, by simp [hnil], hR.1, hR.2, by simp [hres]⟩
  · by_cases hut : u = t
    · subst hut
      obtain ⟨rfl, -⟩ : QueryPc.notify = pc ∧ _ := by simpa using hu
      exact ⟨rfl, by simp⟩
    · rcases h.frame u pc q (by simpa [hut] using hu) hq with hstage' | ⟨-, hne⟩
      · rw [hstage] at hstage'
        cases hstage'
        exact absurd rfl hut
      · exact absurd hnil hne
  · have hold := h.tasks c
    rw [hstage, if_neg (by simp)] at hold
    unfold State.tasksOf at hold ⊢
    by_cases hc : c = R.client
    · subst hc
      simp [hold, hnil, hR.1]
    · simp [hc, Ne.symm hc, hold]
  · rw [State.goto_pc, State.setPool_pc_of_workers s (by simp)] at hx
    have := h.run w x hx hk
    rw [hstage] at this
    cases this

/-- Whose task it is does not depend on what becomes of it. -/
theorem Record.Owns.congr {task : Task} (h : R.Owns k task) (hsame : R'.client = R.client ∧
    R'.exchange = R.exchange ∧ R'.literal = R.literal ∧ R'.lookup = R.lookup ∧
      R'.queued = R.queued) (hr : R'.result ≠ some .pgError) : R'.Owns k task := by
  obtain ⟨hc, he, hl, hk, hq⟩ := hsame
  refine ⟨by rw [hq, hc, h.queued], h.ticket, ?_, hr⟩
  unfold Identifies
  rw [he, hl, hk]
  exact h.exchangeID

/-- The call returns success. -/
theorem Ticket.notify (h : Ticket s k R) {q : Query} (hf : s.frame t = .query .notify q)
    (hq : q.ticket = k) (hs : SameBut t k s s') {last : Option Result}
    (hf' : s'.frame t = .idle last) :
    Ticket s' k { R with result := some .pgSuccess } := by
  have hloc := h.located
  have hne : R.queued ≠ [] := by
    obtain hstage | ⟨-, hne⟩ := h.frame t _ q hf hq
    · simp only [State.Located, hstage] at hloc
      obtain ⟨⟨pc, callback, hpc, hR⟩, -⟩ := hloc
      obtain ⟨rfl, -⟩ : QueryPc.notify = pc ∧ _ := by simpa [hf] using hpc
      exact hR.elim
    · exact hne
  refine ⟨?_, fun u pc q hu hq => ?_, fun c => (hs.tasks c).trans (h.tasks c),
    fun w x hx => h.run w x ((hs.run w x).1 hx)⟩
  · unfold State.Located at hloc ⊢
    rw [hs.calls]
    cases hstage : R.stage <;> simp only [hstage] at hloc ⊢
    case notCalled => exact absurd (congrArg Record.queued hloc.1) hne
    case calling => exact absurd hloc.2.1 hne
    case refused => exact absurd hloc.1 hne
    case queued c =>
      obtain ⟨hc, hfail, hcalls, task, hO⟩ := hloc
      exact ⟨hc, hfail, hcalls, task, hO.congr ⟨rfl, rfl, rfl, rfl, rfl⟩ (by simp)⟩
    case executing w =>
      obtain ⟨hc, hfail, x, hx, hO, hE⟩ := hloc
      exact ⟨hc, hfail, x, (hs.run _ _).2 hx, hO.congr ⟨rfl, rfl, rfl, rfl, rfl⟩ (by simp), hE⟩
    case ended =>
      obtain ⟨task, hO, hC⟩ := hloc
      exact ⟨task, hO.congr ⟨rfl, rfl, rfl, rfl, rfl⟩ (by simp), hC⟩
  · by_cases hut : u = t
    · subst hut
      rw [hf'] at hu
      cases hu
    · rw [hs.frame u hut] at hu
      exact h.frame u pc q hu hq

end Call

/-! ### Steps of the task -/

section Task

variable {s s' : State} {w : Worker} {k : ℕ} {R R' : Record}

/-- A call whose task is in a queue. -/
theorem Ticket.queued_of_mem (h : Ticket s k R) {c : ClientId} {task : Task}
    (hmem : task ∈ (s.pool c).tasks) (hk : task.ticket = k) : R.stage = .queued c := by
  by_contra hne
  have htasks := h.tasks c
  rw [if_neg hne] at htasks
  have : task ∈ s.tasksOf k c := List.mem_filter.2 ⟨hmem, by simpa using hk⟩
  rw [htasks] at this
  cases this

/-- The worker takes the task. -/
theorem Ticket.take (h : Ticket s k R) {task : Task} {tasks : List Task} (hpc : s.pc w = .check)
    (ht : (s.pool w.client).tasks = task :: tasks) (hk : task.ticket = k) :
    Ticket (s.setPool w.client { (s.pool w.client).unlock.setWorker w.index (.run task.start) with
      tasks := tasks }) k { R with stage := .executing w } := by
  have hstage := h.queued_of_mem (c := w.client) (ht ▸ List.mem_cons_self) hk
  have hold := h.tasks w.client
  rw [State.tasksOf, ht, List.filter_cons_of_pos (by simpa using hk)] at hold
  have hloc := h.located
  simp only [State.Located, hstage] at hloc
  obtain ⟨hc, hfail, hcalls, task', hO⟩ := hloc
  rw [if_pos hstage, hO.queued] at hold
  obtain ⟨rfl, hrest⟩ : task = task' ∧ tasks.filter (fun task => task.ticket = k) = [] := by
    simpa using hold
  refine ⟨?_, fun u pc q hu hq => Or.inr ?_, fun c => ?_, fun u x hx hk => ?_⟩
  · refine ⟨hc, hfail, task.start, ?_, hO.congr ⟨rfl, rfl, rfl, rfl, rfl⟩ hO.result, hcalls⟩
    simp [State.setPool_pc]
  · rcases h.frame u pc q hu hq with hcall | hpush
    · rw [hstage] at hcall
      cases hcall
    · exact hpush
  · have hsame := h.tasks c
    rw [hstage] at hsame
    rw [if_neg (by simp)]
    unfold State.tasksOf at hsame ⊢
    by_cases hcw : c = w.client
    · subst hcw
      simpa using hrest
    · rw [if_neg (by simpa using Ne.symm hcw)] at hsame
      simpa [hcw] using hsame
  · by_cases huw : u = w
    · rw [huw]
    · have hx' : s.pc u = .run x := by
        rw [State.setPool_pc] at hx
        split at hx
        · rename_i hcu
          have hi : u.index ≠ w.index := fun hi => huw (by cases u; cases w; simp_all)
          simpa [State.pc, hcu, hi] using hx
        · exact hx
      have := h.run u x hx' hk
      rw [hstage] at this
      cases this

/-- A task moves, and nothing else that belongs to the call. -/
theorem Ticket.of_task (h : Ticket s k R) (hstage : R.stage = .executing w)
    (hframe : s'.frame = s.frame) (htasks : ∀ c, s'.tasksOf k c = s.tasksOf k c)
    (hpc : ∀ u, u ≠ w → s'.pc u = s.pc u) (hq : R'.queued = R.queued)
    (hR' : ∀ c, R'.stage ≠ .queued c) (hrun : ∀ x, s'.pc w = .run x → R'.stage = .executing w)
    (hloc : s'.Located k R') : Ticket s' k R' := by
  refine ⟨hloc, fun u pc q hu hqk => Or.inr ?_, fun c => ?_, fun u x hx hk => ?_⟩
  · rw [hframe] at hu
    rw [hq]
    rcases h.frame u pc q hu hqk with hcall | hpush
    · rw [hstage] at hcall
      cases hcall
    · exact hpush
  · rw [htasks, h.tasks, if_neg (by simp [hstage]), if_neg (hR' c)]
  · by_cases huw : u = w
    · subst huw
      exact hrun x hx
    · have := h.run u x (hpc u huw ▸ hx) hk
      rw [hstage] at this
      cases this
      exact absurd rfl huw

/-- A step of the task that is not the last one. -/
theorem Ticket.executes (h : Ticket s k R) (hstage : R.stage = .executing w)
    (hframe : s'.frame = s.frame) (htasks : ∀ c, s'.tasksOf k c = s.tasksOf k c)
    (hpc : ∀ u, u ≠ w → s'.pc u = s.pc u) {x x' : Execution} (hx : s.pc w = .run x)
    (hx' : s'.pc w = .run x') (htask : x'.task = x.task)
    (hsame : R' = R ∨ ∃ select, R' = { R with select := select })
    (hE : R.Executed x.task (s.calls k) x.pc → R'.Executed x.task (s'.calls k) x'.pc) :
    Ticket s' k R' := by
  have hloc := h.located
  simp only [State.Located, hstage] at hloc
  obtain ⟨hc, hfail, y, hy, hO, hEx⟩ := hloc
  cases hx.symm.trans hy
  have hrest : R'.stage = R.stage ∧ R'.client = R.client ∧ R'.exchange = R.exchange ∧
      R'.literal = R.literal ∧ R'.lookup = R.lookup ∧ R'.queued = R.queued ∧
      R'.result = R.result ∧ R'.failed = R.failed := by
    rcases hsame with rfl | ⟨select, rfl⟩ <;> simp
  obtain ⟨hst, hcl, he, hl, hk, hq, hr, hf⟩ := hrest
  have hstage' : R'.stage = .executing w := hst.trans hstage
  refine h.of_task hstage hframe htasks hpc hq (by simp [hstage']) (fun _ _ => hstage') ?_
  simp only [State.Located, hstage']
  refine ⟨hc.trans hcl.symm, hf.trans hfail, x', hx', ?_, htask ▸ hE hEx⟩
  rw [htask]
  exact hO.congr ⟨hcl, he, hl, hk, hq⟩ (hr ▸ hO.result)

/-- The last step of the task. -/
theorem Ticket.ends (h : Ticket s k R) (hstage : R.stage = .executing w)
    (hframe : s'.frame = s.frame) (htasks : ∀ c, s'.tasksOf k c = s.tasksOf k c)
    (hpc : ∀ u, u ≠ w → s'.pc u = s.pc u) {x : Execution} (hx : s.pc w = .run x)
    (hx' : s'.pc w = .acquire) {failed : Bool}
    (hC : R.failed = false → R.Executed x.task (s.calls k) x.pc →
      { R with failed := failed, stage := .ended : Record }.Completed x.task (s'.calls k)) :
    Ticket s' k { R with failed := failed, stage := .ended } := by
  have hloc := h.located
  simp only [State.Located, hstage] at hloc
  obtain ⟨hc, hfail, y, hy, hO, hE⟩ := hloc
  cases hx.symm.trans hy
  refine h.of_task hstage hframe htasks hpc rfl (by simp) (by simp [hx']) ?_
  exact ⟨x.task, hO.congr ⟨rfl, rfl, rfl, rfl, rfl⟩ hO.result, hC hfail hE⟩

/-- The callback has not been called as long as the task uses the connector. -/
theorem Record.Executed.calls_nil {task : Task} {calls : List (List Message)} {pc : TaskPc}
    (h : R.Executed task calls pc) (hpc : pc.usesConnector = true) : calls = [] := by
  cases pc with
  | resultGetAll r => exact h.1
  | lock | call | callback | unlock => cases hpc
  | _ => exact h

/-- A step of the task, which is not a callback that throws. -/
theorem Ticket.task (h : Ticket s k R) {x : Execution} {a : TaskAct} {m : Option Worker}
    {pc : LoopPc Execution} (hx : s.pc w = .run x) (hk : x.task.ticket = k)
    (hst : TaskStep x a pc) (ha : a ≠ .callbackThrow) :
    Ticket (((s.setPc w pc).setMutex m).setInvoked (s.record x a)) k (R.task x a pc) := by
  have hstage := h.run w x hx hk
  have htasks : ∀ c,
      (((s.setPc w pc).setMutex m).setInvoked (s.record x a)).tasksOf k c = s.tasksOf k c := by
    simp [State.tasksOf]
  have hpcs : ∀ u, u ≠ w →
      (((s.setPc w pc).setMutex m).setInvoked (s.record x a)).pc u = s.pc u := by
    simp +contextual
  have hx' : (((s.setPc w pc).setMutex m).setInvoked (s.record x a)).pc w = pc := by simp
  have hframe : (((s.setPc w pc).setMutex m).setInvoked (s.record x a)).frame = s.frame := rfl
  obtain ⟨task, tpc⟩ := x
  cases hst with
  | openConnection hpc | createTransaction hpc | prepareStatement hpc | executePrepared hpc
  | resultGetAll hpc | lock hpc =>
    cases hpc
    exact h.executes hstage hframe htasks hpcs hx hx' rfl (Or.inl rfl) id
  | executeQuery hpc =>
    cases hpc
    exact h.executes hstage hframe htasks hpcs hx hx' rfl (Or.inr ⟨_, rfl⟩) fun hE => ⟨hE, rfl⟩
  | @invoke r hpc =>
    cases hpc
    refine h.executes hstage hframe htasks hpcs hx hx' rfl (Or.inl rfl) fun hE => ⟨?_, hE.2⟩
    have hnil : s.calls k = [] := hE.1
    change ((s.invoked ++ [(task.ticket, r)]).filter fun p => p.1 = k).map Prod.snd = [r]
    rw [List.filter_append, List.map_append]
    change s.calls k ++ _ = _
    have hk : task.ticket = k := hk
    simp [hnil, hk]
  | callbackReturn hpc =>
    cases hpc
    exact h.executes hstage hframe htasks hpcs hx hx' rfl (Or.inl rfl) fun hE => ⟨_, hE⟩
  | throw hpc =>
    have hR : R.task ⟨task, tpc⟩ (.connector .throw) .acquire =
        { R with failed := true, stage := .ended } := by
      cases tpc <;> rfl
    rw [hR]
    refine h.ends hstage hframe htasks hpcs hx hx' fun _ hE => ?_
    exact (if_pos rfl).mpr (hE.calls_nil hpc)
  | unlock hpc =>
    cases hpc
    have hR : R.task ⟨task, .unlock⟩ .unlock .acquire =
        { R with failed := R.failed, stage := .ended } := rfl
    rw [hR]
    refine h.ends hstage hframe htasks hpcs hx hx' fun hfail hE => ?_
    exact (if_neg (by simp [hfail])).mpr hE
  | callThrow | callbackThrow => exact absurd rfl ha

end Task

/-! ### Every step -/

section Step

variable {s s' : State} {l : Label} {k : ℕ} {R : Record} {A : ℕ → Record}

/-- **What a step does to the call for which it acts.** -/
theorem Ticket.step (h : Ticket s k R) (hfresh : k = s.next → R.stage = .notCalled)
    (hl : CallbacksReturn s l) (hst : Step s l s') (hk : s.ticket l = some k) :
    Ticket s' k (R.note s l s') := by
  cases hst with
  | @loop w a P hP =>
    cases hP with
    | @take task tasks hpc hold =>
      have hpc' : s.pc w = .check := hpc
      simp only [State.ticket, hpc', hold, Option.some.injEq] at hk
      exact h.take hpc hold hk
    | acquire hpc | leave hpc hold | wait hpc hold | wake hpc | wakeSpurious hpc =>
      have hpc' : s.pc w = _ := hpc
      simp [State.ticket, *] at hk
  | @task w a _ x m pc _ hx _ htask =>
    simp only [State.ticket, hx, Option.some.injEq] at hk
    have ha : a ≠ .callbackThrow := fun e => hl w (by rw [e])
    have hnote : R.note s (.work w (.task a))
        (((s.setPc w pc).setMutex m).setInvoked (s.record x a)) = R.task x a pc := by
      simp [Record.note, hx]
    rw [hnote]
    exact h.task hx hk htask ha
  | callQuery =>
    obtain rfl : s.next = k := by simpa [State.ticket] using hk
    exact h.call (hfresh rfl)
  | callDestructor => simp [State.ticket] at hk
  | query hf hq =>
    simp only [State.ticket, hf, Option.some.injEq] at hk
    simpa [Record.note, hf] using h.query hf hk hq
  | enqueue hf =>
    simp only [State.ticket, hf, Option.some.injEq] at hk
    simp only [Record.note, hf, State.goto_frame_self, Record.exec]
    exact h.goes_on hf hk (by simp) (sameBut_setPool rfl fun _ _ => Iff.rfl)
      (State.goto_frame_self ..) rfl ⟨rfl, rfl, rfl, rfl, rfl⟩ fun hR _ => hR
  | push hf =>
    simp only [State.ticket, hf, Option.some.injEq] at hk
    simpa [Record.note, hf, Record.exec] using h.push hf hk
  | pushStopped hf =>
    simp only [State.ticket, hf, Option.some.injEq] at hk
    simp only [Record.note, hf, State.goto_frame_self, Record.exec]
    exact h.refuse hf hk (by simp) (sameBut_setPool rfl fun _ _ => Iff.rfl)
      (State.goto_frame_self ..)
  | @notifyOne t q i hf hi =>
    simp only [State.ticket, hf, Option.some.injEq] at hk
    refine h.notify hf hk (sameBut_setPool rfl fun j x => ?_) (State.goto_frame_self ..)
    by_cases hj : j = i
    · have : (s.pool q.client).workers i ≠ .run x := fun e => by simp [e, LoopPc.sleeping] at hi
      simp [hj, this]
    · simp [hj]
  | notifyNobody hf =>
    simp only [State.ticket, hf, Option.some.injEq] at hk
    exact h.notify hf hk (sameBut_setPool rfl fun _ _ => Iff.rfl) (State.goto_frame_self ..)
  | dtorLock hf | dtorStop hf | dtorNotify hf | dtorJoin hf | dtorJoinThrow hf | dtorDone hf =>
    simp [State.ticket, hf] at hk

/-- A step acts for a call that was entered, unless it enters the call. -/
theorem Ticket.entered (h : Ticket s k R) (hR : R.stage = .notCalled)
    (hk : s.ticket l = some k) :
    ∃ t c callback exchange, l = .call t (.pgMessageQuery c callback exchange) := by
  have hframe : ∀ t pc q, s.frame t = .query pc q → q.ticket ≠ k := by
    intro t pc q hf hq
    rcases h.frame t pc q hf hq with hstage | ⟨-, hne⟩
    · rw [hR] at hstage
      cases hstage
    · exact hne (h.queued_nil (Or.inl hR))
  cases l with
  | call t c =>
    cases c with
    | pgMessageQuery c callback exchange => exact ⟨t, c, callback, exchange, rfl⟩
    | destructor => cases hk
  | exec t | notify t =>
    exfalso
    simp only [State.ticket] at hk
    split at hk
    · exact hframe _ _ _ ‹_› (Option.some.inj hk)
    · cases hk
  | work w a =>
    exfalso
    cases a with
    | loop =>
      simp only [State.ticket] at hk
      split at hk
      · rename_i task _ _ hold
        have hmem : task ∈ (s.pool w.client).tasks := by simp [hold]
        have hstage := h.queued_of_mem hmem (Option.some.inj hk)
        rw [hR] at hstage
        cases hstage
      · cases hk
    | task =>
      simp only [State.ticket] at hk
      split at hk
      · have hstage := h.run w _ ‹_› (Option.some.inj hk)
        rw [hR] at hstage
        cases hstage
      · cases hk

theorem account_of_ne (hk : s.ticket l ≠ some k) : account A s l s' k = A k := by
  cases hj : s.ticket l with
  | none => simp only [account, hj]
  | some j =>
    have hne : k ≠ j := fun e => hk (by rw [hj, e])
    simp only [account, hj, Function.update_of_ne hne]

theorem account_self (hk : s.ticket l = some k) : account A s l s' k = (A k).note s l s' := by
  simp [account, hk]

theorem Tickets.step (hs : Tickets s A) (hl : CallbacksReturn s l) (h : Step s l s') :
    Tickets s' (account A s l s') := by
  constructor
  · intro k
    by_cases hk : s.ticket l = some k
    · rw [account_self hk]
      exact (hs.ticket k).step (fun e => hs.fresh k e.ge) hl h hk
    · rw [account_of_ne hk]
      exact (hs.ticket k).congr (sameAt_of_ne hs h hk)
  · intro k hk
    have hle : s.next ≤ s'.next := by
      cases h with
      | callQuery => exact Nat.le_succ _
      | _ => exact Nat.le_refl _
    have hfresh := hs.fresh k (hle.trans hk)
    rw [account_of_ne, hfresh]
    intro hticket
    obtain ⟨t, c, callback, exchange, rfl⟩ := (hs.ticket k).entered hfresh hticket
    cases h with
    | callQuery =>
      obtain rfl : s.next = k := by simpa [State.ticket] using hticket
      exact absurd hk (Nat.not_succ_le_self _)

end Step

theorem tickets_of_reachable {s : State} {A : ℕ → Record}
    (h : (pg.observe account).ReachableWhere (fun p l => ProperCallbacks p.1 l)
      (State.init, fun _ => {}) (s, A)) : Tickets s A := by
  refine h.invariant (I := fun p => Tickets p.1 p.2) Tickets.init fun p l p' hs hl hst => ?_
  obtain ⟨hstep, hA⟩ := Machine.observe_step_eq_some_iff.1 hst
  rw [hA]
  exact hs.step hl.1 (step_cases hstep).2

end Comyno.Pg
