import Comyno.Pg.Step

/-!
# The destruction of a client

The members of a `PGClient` are destroyed in reverse order of their declaration: `mPGConnector`
first, then `mPool`, whose destructor lets the workers execute all queued tasks before it joins
them, and `mDatabase` last.  The tasks use both `mPGConnector` and `mDatabase`.

## Main results

* `mDatabase_alive_of_run` : `mDatabase` outlives every task, in every run.
* `mPGConnector_outlives_tasks_iff` : `mPGConnector` outlives the tasks of its client in a run
  exactly when `~PGClient` is only ever entered with no task of the client queued or executing.
* `mPGConnector_used_after_destruction` : a query followed by `~PGClient`, in one application
  thread, is enough for a worker to use `mPGConnector` after its destruction.
-/

namespace Comyno.Pg

/-- A task of the client `c` is queued or executing. -/
def State.Busy (s : State) (c : ClientId) : Prop :=
  (s.pool c).tasks ≠ [] ∨ ∃ i x, s.pc ⟨c, i⟩ = .run x

/-- No client has a task queued or executing once its `mPGConnector` is destroyed. -/
def State.Drained (s : State) : Prop := ∀ c, (s.client c).mPGConnector = false → ¬ s.Busy c

/-- Every task about to use a member of its client finds it alive. -/
def State.UsesAlive (s : State) : Prop :=
  ∀ w x, s.pc w = .run x →
    (x.pc.usesConnector = true → (s.client w.client).mPGConnector = true) ∧
      (x.pc = .openConnection → (s.client w.client).mDatabase = true)

/-- The thread `t` is a worker of the client `c`. -/
def Thread.WorksFor (c : ClientId) (t : Thread) : Prop := ∃ i, t = .worker ⟨c, i⟩

/-- The operation is executed on the client `c`. -/
def Frame.on (c : ClientId) : Frame → Prop
  | .idle _ => False
  | .query _ q => q.client = c
  | .dtor _ d => d = c

/-- A client is used during its lifetime: an operation on a client starts before its destruction,
or in a callback of its own; and when it is destroyed, no other operation on it is in progress,
except in its own callbacks. -/
def Lifetime (s : State) : Label → Prop
  | .call t (.pgMessageQuery c _ _) => (s.client c).mPGConnector = true ∨ t.WorksFor c
  | .call _ (.destructor c) => (s.client c).mPGConnector = true ∧
      ∀ u, (s.frame u).on c → u.WorksFor c
  | .work _ _ | .exec _ _ | .notify _ _ => True

/-- `~PGClient` is entered with no task of the client queued or executing. -/
def DestroysIdle (s : State) (l : Label) : Prop :=
  ∀ t c, l = .call t (.destructor c) → ¬ s.Busy c

section Step

variable {s s' : State} {l : Label}

/-- `mPGConnector` is destroyed when `~PGClient` is entered. -/
theorem Step.mPGConnector_cases (h : Step s l s') (c : ClientId) :
    (s'.client c).mPGConnector = (s.client c).mPGConnector ∨ ∃ t, l = .call t (.destructor c) := by
  cases h with
  | @callDestructor t d =>
    by_cases hc : c = d
    · exact Or.inr ⟨t, by rw [hc]⟩
    · exact Or.inl (by simp [hc])
  | @dtorDone _ d => exact Or.inl (by by_cases hc : c = d <;> simp [hc])
  | _ => exact Or.inl (by simp)

/-- Entering `~PGClient` destroys `mPGConnector` and nothing else. -/
theorem Step.of_destructor {t : Thread} {c : ClientId}
    (h : Step s (.call t (.destructor c)) s') : (s'.client c).mPGConnector = false ∧
      (s'.Busy c ↔ s.Busy c) := by
  cases h with
  | callDestructor =>
    have hpc := State.setClient_pc s (c := c)
      (K := { s.client c with mPGConnector := false }) rfl
    simp [State.Busy, hpc, State.pool]

/-- The queue of a client grows only by a query. -/
theorem Step.tasks_cases (h : Step s l s') {c : ClientId} (ht : (s'.pool c).tasks ≠ []) :
    (s.pool c).tasks ≠ [] ∨ ∃ t task q, s.frame t = .query (.push task) q ∧ q.client = c := by
  have hm := h.tasks_move c
  generalize (s'.pool c).tasks = tasks at hm ht
  cases hm with
  | same => exact Or.inl ht
  | pushed hf hc => exact Or.inr ⟨_, _, _, hf, hc⟩
  | taken _ hold => exact Or.inl (by simp [hold])

/-- A worker begins a task only if one is queued. -/
theorem Step.run_cases (h : Step s l s') {w : Worker} {x : Execution} (hx : s'.pc w = .run x) :
    (∃ y, s.pc w = .run y) ∨ (s.pool w.client).tasks ≠ [] := by
  have hm := h.pc_move w
  rw [hx] at hm
  generalize hk : LoopPc.run x = k at hm
  cases hm with
  | same => exact Or.inl ⟨x, hk.symm⟩
  | notify => exact Or.inl ⟨x, LoopPc.notify_eq_run_iff.1 hk.symm⟩
  | loop hP =>
    right
    cases hP <;> simp_all
  | task _ hrun _ => exact Or.inl ⟨_, hrun⟩

/-- A client gets busy only by a query that queues its task. -/
theorem Step.busy_cases (h : Step s l s') {c : ClientId} (hb : s'.Busy c) :
    s.Busy c ∨ ∃ t task q, s.frame t = .query (.push task) q ∧ q.client = c := by
  rcases hb with ht | ⟨i, x, hx⟩
  · exact (h.tasks_cases ht).imp_left Or.inl
  · rcases h.run_cases hx with ⟨y, hy⟩ | ht
    · exact Or.inl (Or.inr ⟨i, y, hy⟩)
    · exact Or.inl (Or.inl ht)

end Step

/-! ### `mDatabase` -/

/-- `~PGClient` joins the workers of its client before it destroys `mDatabase`. -/
structure Joins (s : State) : Prop where
  joined : ∀ t todo c, s.frame t = .dtor (.join todo) c → ∀ i, i ∉ todo → s.pc ⟨c, i⟩ = .exited
  database : ∀ c, (s.client c).mDatabase = false → ∀ i, s.pc ⟨c, i⟩ = .exited

theorem Joins.init : Joins State.init :=
  ⟨fun _ _ _ h => (by cases h), fun _ h => (by cases h)⟩

theorem Joins.step {s s' : State} {l : Label} (hs : Joins s) (h : Step s l s') : Joins s' := by
  constructor
  · intro t todo c hf i hi
    by_cases hl : l.thread = some t
    · cases h with
      | loop | task => simp [Label.thread] at hl
      | dtorNotify =>
        cases hl
        obtain ⟨rfl, rfl⟩ : List.finRange poolSize = todo ∧ _ = c := by simpa using hf
        exact absurd (List.mem_finRange i) hi
      | @dtorJoin _ d j todo' hq hj =>
        cases hl
        obtain ⟨rfl, rfl⟩ : todo' = todo ∧ d = c := by simpa using hf
        by_cases hij : i = j
        · rw [hij]
          exact hj
        · exact hs.joined t _ d hq i (by simp [hij, hi])
      | dtorJoinThrow => exact hs.joined t todo c hf i hi
      | query _ hqs =>
        cases hl
        cases hqs <;> simp at hf
      | _ =>
        cases hl
        simp at hf
    · rw [h.frame_of_ne hl] at hf
      exact h.pc_of_exited (hs.joined t todo c hf i hi)
  · intro c hd i
    refine h.pc_of_exited ?_
    cases h with
    | @dtorDone t d hf =>
      by_cases hc : c = d
      · exact hc ▸ hs.joined t [] d hf i (by simp)
      · exact hs.database c (by simpa [hc] using hd) i
    | @callDestructor _ d =>
      by_cases hc : c = d <;> exact hs.database c (by simpa [hc] using hd) i
    | _ => exact hs.database c (by simpa using hd) i

theorem joins_of_reachable {C : State → Label → Prop} {s : State}
    (h : pg.ReachableWhere C State.init s) : Joins s :=
  h.invariant Joins.init fun _ _ _ hs _ hst => hs.step (step_cases hst).2

/-- **`mDatabase` outlives every task of its client.** -/
theorem mDatabase_alive_of_run {C : State → Label → Prop} {s : State}
    (h : pg.ReachableWhere C State.init s) {w : Worker} {x : Execution} (hx : s.pc w = .run x) :
    (s.client w.client).mDatabase = true := by
  refine eq_true_of_ne_false fun hd => ?_
  rw [(joins_of_reachable h).database w.client hd w.index] at hx
  cases hx

/-! ### `mPGConnector` -/

/-- What holds as long as clients are used during their lifetime. -/
structure InLifetime (s : State) : Prop where
  frames : CallbackFrames s
  joins : Joins s
  /-- Once `~PGClient` is entered, only callbacks of the client query it. -/
  query : ∀ t pc q, s.frame t = .query pc q → (s.client q.client).mPGConnector = false →
    t.WorksFor q.client

theorem InLifetime.init : InLifetime State.init :=
  ⟨CallbackFrames.init, Joins.init, fun _ _ _ h => (by cases h)⟩

/-- A query goes on with the operation it is. -/
theorem Step.query_cases {s s' : State} {l : Label} (h : Step s l s') {t : Thread} {pc : QueryPc}
    {q : Query} (hf : s'.frame t = .query pc q) :
    (∃ pc', s.frame t = .query pc' q) ∨
      ∃ callback exchange, l = .call t (.pgMessageQuery q.client callback exchange) := by
  by_cases hl : l.thread = some t
  · cases h with
    | loop | task => simp [Label.thread] at hl
    | callQuery =>
      cases hl
      obtain ⟨rfl, rfl⟩ : QueryPc.openConnection = pc ∧ _ = q := by simpa using hf
      exact Or.inr ⟨_, _, rfl⟩
    | query hq hqs =>
      cases hl
      cases hqs <;> simp_all
    | enqueue hq | push hq =>
      cases hl
      simp_all
    | dtorJoinThrow hq =>
      cases hl
      simp_all
    | _ =>
      cases hl
      simp at hf
  · rw [h.frame_of_ne hl] at hf
    exact Or.inl ⟨pc, hf⟩

theorem InLifetime.step {s s' : State} {l : Label} (hs : InLifetime s) (hlife : Lifetime s l)
    (h : Step s l s') : InLifetime s' := by
  refine ⟨hs.frames.step h, hs.joins.step h, fun t pc q hf hdead => ?_⟩
  rcases h.query_cases hf with ⟨pc', hf'⟩ | ⟨callback, exchange, rfl⟩
  · rcases h.mPGConnector_cases q.client with hsame | ⟨u, rfl⟩
    · exact hs.query t pc' q hf' (hsame ▸ hdead)
    · exact hlife.2 t (by rw [hf']; rfl)
  · rcases hlife with halive | hworks
    · rcases h.mPGConnector_cases q.client with hsame | ⟨u, hu⟩
      · rw [hsame, halive] at hdead
        cases hdead
      · cases hu
    · exact hworks

/-- **A drained client stays drained**, provided no `~PGClient` is entered on a busy one. -/
theorem State.Drained.step {s s' : State} {l : Label} (hd : s.Drained) (hs : InLifetime s)
    (hc : DestroysIdle s l) (h : Step s l s') : s'.Drained := by
  intro c hdead hb
  by_cases hl : ∃ t, l = .call t (.destructor c)
  · obtain ⟨t, rfl⟩ := hl
    exact hc t c rfl (h.of_destructor.2.1 hb)
  · have hdead' : (s.client c).mPGConnector = false := by
      rcases h.mPGConnector_cases c with hsame | ht
      · exact hsame ▸ hdead
      · exact absurd ht hl
    rcases h.busy_cases hb with hb' | ⟨t, task, q, hf, rfl⟩
    · exact hd c hdead' hb'
    · -- a callback of the client itself is part of a task that executes
      obtain ⟨i, rfl⟩ := hs.query t _ q hf hdead'
      obtain ⟨task', messages, hpc⟩ := hs.frames ⟨q.client, i⟩ (by simp [hf])
      exact hd _ hdead' (Or.inr ⟨i, _, hpc⟩)

theorem InLifetime.usesAlive {s : State} (hs : InLifetime s) (hd : s.Drained) : s.UsesAlive := by
  intro w x hx
  constructor
  · intro _
    refine eq_true_of_ne_false fun hdead => ?_
    exact hd w.client hdead (Or.inr ⟨w.index, x, hx⟩)
  · intro _
    refine eq_true_of_ne_false fun hdead => ?_
    rw [hs.joins.database w.client hdead w.index] at hx
    cases hx

/-- **The destruction of a client.**  Let every client be used during its lifetime.  Then
throughout a run no task is queued or executing once the `mPGConnector` of its client is destroyed,
and every task that uses a member of its client finds it alive, exactly when `~PGClient` is only
ever entered with no task of the client queued or executing. -/
theorem mPGConnector_outlives_tasks_iff {ls : List Label}
    (hlife : pg.AllSteps Lifetime State.init ls) :
    pg.Always (fun s => s.Drained ∧ s.UsesAlive) State.init ls ↔
      pg.AllSteps DestroysIdle State.init ls := by
  have hdrained : State.init.Drained := fun _ h => by cases h
  refine Conc.Machine.always_iff_allSteps (J := InLifetime) (D := Lifetime) ?_ ?_ ?_
    InLifetime.init ⟨hdrained, InLifetime.init.usesAlive hdrained⟩ hlife
  · exact fun _ _ _ hs hl hst => hs.step hl (step_cases hst).2
  · intro s l s' hs hd hl hc hst
    have hd' := hd.1.step hs hc (step_cases hst).2
    exact ⟨hd', (hs.step hl (step_cases hst).2).usesAlive hd'⟩
  · intro s l s' _ _ _ hc hst hd'
    unfold DestroysIdle at hc
    push Not at hc
    obtain ⟨t, c, rfl, hb⟩ := hc
    obtain ⟨hdead, hiff⟩ := (step_cases hst).2.of_destructor
    exact hd'.1 c hdead (hiff.2 hb)

/-! ### One query and the destruction of its client -/

/-- A query is in the lifetime of its client, as long as nothing is destroyed. -/
theorem allSteps_lifetime_query (c : ClientId) (ls : List Label)
    (hls : ∀ l ∈ ls, l.thread = none) :
    pg.AllSteps Lifetime State.init (queryLabels 0 c true ++ ls) := by
  refine fun s' _ => ⟨Or.inl rfl, Conc.Machine.allSteps_of_labels fun l hl s => ?_⟩
  have hcall : ∀ t op, l ≠ .call t op := by
    rcases List.mem_append.1 hl with hl | hl
    · intro t op hop
      subst hop
      simp at hl
    · intro t op hop
      have := hls l hl
      rw [hop] at this
      cases this
  cases l with
  | call t op => exact absurd rfl (hcall t op)
  | _ => trivial

/-- The only thread that executes operations may destroy a client that is alive. -/
theorem lifetime_destructor {s : State} {ls : List Label} {t : Thread} {last : Option Result}
    {c : ClientId} (h : pg.run State.init ls = some s)
    (ht : ∀ l ∈ ls, l.thread = none ∨ l.thread = some t) (hf : s.frame t = .idle last)
    (halive : (s.client c).mPGConnector = true) : Lifetime s (.call t (.destructor c)) := by
  refine ⟨halive, fun u hu => ?_⟩
  by_cases hut : u = t
  · rw [hut, hf] at hu
    exact hu.elim
  · rw [frame_of_run_of_ne h ht hut] at hu
    exact hu.elim

/-- The steps of a worker that executes a task with a callback. -/
def taskLabels (w : Worker) (messages : List Message) : List Label :=
  fetchLabels w messages ++ [.work w (.task .lock), .work w (.task .invoke),
    .work w (.task .callbackReturn), .work w (.task .unlock)]

/-- A client that is destroyed after its only task. -/
theorem mPGConnector_outlives_one_task :
    pg.Always (fun s => s.Drained ∧ s.UsesAlive) State.init
      (queryLabels 0 0 true ++ taskLabels ⟨0, 0⟩ [] ++ [.call (.app 0) (.destructor 0)]) := by
  have hrun : ∃ s, pg.run State.init (queryLabels 0 0 true ++ taskLabels ⟨0, 0⟩ []) = some s ∧
      s.frame (.app 0) = .idle (some (.status .pgSuccess)) ∧
      (s.client 0).mPGConnector = true ∧ (s.pool 0).tasks = [] ∧ ∀ i, s.pc ⟨0, i⟩ = .acquire :=
    ⟨_, rfl, rfl, rfl, rfl, by decide⟩
  obtain ⟨s, hs, hf, halive, htasks, hpc⟩ := hrun
  refine (mPGConnector_outlives_tasks_iff ?_).2 ?_
  · refine Conc.Machine.allSteps_append hs (allSteps_lifetime_query 0 _ (by decide)) fun _ _ => ?_
    exact ⟨lifetime_destructor hs (by decide) hf halive, trivial⟩
  · refine Conc.Machine.allSteps_append hs ?_ fun _ _ => ⟨fun t c hl => ?_, trivial⟩
    · refine Conc.Machine.allSteps_of_labels fun l hl s t c hlc => ?_
      subst hlc
      simp [queryLabels, taskLabels, fetchLabels] at hl
    · cases hl
      rintro (ht | ⟨i, x, hx⟩)
      · exact ht htasks
      · rw [hpc i] at hx
        cases hx

/-- `~PGClient` right after a query: a worker takes the task, which uses `mPGConnector` after its
destruction. -/
theorem mPGConnector_used_after_destruction :
    (¬ ∀ s, pg.ReachableWhere Lifetime State.init s → s.Drained) ∧
      ¬ ∀ s, pg.ReachableWhere Lifetime State.init s → s.UsesAlive := by
  have hrun : ∃ s, pg.run State.init (queryLabels 0 0 true) = some s ∧
      s.frame (.app 0) = .idle (some (.status .pgSuccess)) ∧
      (s.client 0).mPGConnector = true ∧
      ∃ s', pg.run s [.call (.app 0) (.destructor 0), .work ⟨0, 0⟩ (.loop .acquire),
          .work ⟨0, 0⟩ (.loop .check)] = some s' ∧
        (s'.client 0).mPGConnector = false ∧
        s'.pc ⟨0, 0⟩ = .run ⟨⟨0, -1, true⟩, .openConnection⟩ :=
    ⟨_, rfl, rfl, rfl, _, rfl, rfl, rfl⟩
  obtain ⟨s, hs, hf, halive, s', hs', hdead, hpc⟩ := hrun
  have h₁ : pg.ReachableWhere Lifetime State.init s := by
    refine Conc.Machine.reachableWhere_of_run hs ?_
    simpa using allSteps_lifetime_query 0 [] (by simp)
  have h₂ : pg.ReachableWhere Lifetime s s' := by
    refine Conc.Machine.reachableWhere_of_run hs' fun _ _ => ⟨?_, fun _ _ => ⟨trivial, fun _ _ =>
      ⟨trivial, trivial⟩⟩⟩
    exact lifetime_destructor hs (by decide) hf halive
  constructor
  · intro h
    exact h s' (h₁.trans h₂) 0 hdead (Or.inr ⟨0, _, hpc⟩)
  · intro h
    have := (h s' (h₁.trans h₂) ⟨0, 0⟩ _ hpc).1 rfl
    rw [hdead] at this
    cases this

end Comyno.Pg
