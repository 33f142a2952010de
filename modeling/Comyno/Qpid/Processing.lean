import Comyno.Qpid.Conservation
import Comyno.Qpid.Escape
import Comyno.Qpid.Return

/-!
# Messages are processed

A worker that receives on an open connection waits for two things, a message of its exchange and the
process-wide mutex.  The mutex is held by the worker of another receiver while it runs a callback,
which may be in the middle of a send (`exists_idle`), and callbacks return (`exists_ready`).  So the
worker can always come back to `receiverFetch` (`exists_fetch`), and each time it does it has
acknowledged everything that it has fetched (`Books.place_of_fetch`).

## Main result

* `queue_processed` : a receiver can process all messages that are in the queue of its exchange.
-/

namespace Comyno

open Conc

/-- The step is on the normal path of the library without sends. -/
def BrokeredNormal (b : Brokered) (l : BrokeredLabel) : Prop :=
  ∀ l', l.messaging b = some l' → NormalPath b.process.messaging l'

/-- The workers go on, with their sends and with the messages of the broker.  Every call returns,
except those on a closed connection and the constructor of an address from a text that is none. -/
def Brokered.Serves (b : Brokered) : BrokeredLabel → Prop
  | .arrive _ | .step (.send _ _) => False
  | .fetch _ _ => True
  | .step (.messaging l) =>
    WorkerGoesOn b.process.messaging l ∨ ∃ r, l = .work r .acknowledge
  | .step (.exec t x) =>
    (∃ r, t = .worker r) ∧ (x = .throw → ∃ args, b.process.sender t = .sending .address args)

/-! ### Steps of the workers -/

theorem normalPath_of_work {s : State} {r : RecvId} {a : WorkerAct}
    (h : (Label.work r a).isNormal = true) : NormalPath s (.work r a) := by
  obtain ⟨hcloses, hreturn, hcall⟩ := normalPath_of_label (s := s) h
  exact ⟨trivial, hcloses, hreturn, hcall⟩

section Serve

variable {parse : AddressParser} {b b' : Brokered} {l : ProcessLabel} {p : Process} {d : ℕ}

/-- Only a fetch takes a message out of the queue. -/
theorem Brokered.place_afterStep (h : b.broker.place d = .queued) :
    (b.afterStep l p).broker.place d = .queued := by
  have hserve : (b.serve l).place d = .queued := by
    unfold Brokered.serve
    split
    · simp [Broker.acknowledge, h]
    · simp [Broker.acknowledge, h]
    · split <;> exact h
    · exact h
  simp [Brokered.afterStep, Broker.close, hserve]

/-- The library runs with its broker on the normal path. -/
structure Serving (parse : AddressParser) (b : Brokered) : Prop where
  reach : (brokered parse).ReachableWhere BrokeredNormal {} b
  running : b.process.messaging.halted = none

theorem Serving.messaging (h : Serving parse b) : Running b.process.messaging :=
  ⟨(brokered_maps_messaging parse).reachableWhere (fun _ _ _ hc hl => hc _ hl) h.reach, h.running⟩

/-- The workers have gone on from `b` to `b'`, without a message from the broker. -/
structure Served (parse : AddressParser) (b b' : Brokered) : Prop where
  serving : Serving parse b'
  fetched : b'.fetched = b.fetched
  queued : ∀ d, b.broker.place d = .queued → b'.broker.place d = .queued

theorem Served.refl (h : Serving parse b) : Served parse b b := ⟨h, rfl, fun _ => id⟩

theorem Served.trans {b'' : Brokered} (h : Served parse b b') (h' : Served parse b' b'') :
    Served parse b b'' :=
  ⟨h'.serving, h'.fetched.trans h.fetched, fun d hd => h'.queued d (h.queued d hd)⟩

theorem served_of_step (h : Serving parse b) (hl : BrokeredNormal b (.step l))
    (hst : (brokered parse).step b (.step l) = some (b.afterStep l p))
    (hs : p.messaging.halted = none) : Served parse b (b.afterStep l p) :=
  ⟨⟨h.reach.tail hl hst, hs⟩, rfl, fun _ => Brokered.place_afterStep⟩

/-- The workers can go on to a state with `P`, without a message from the broker. -/
def Brokered.WorkersReach (parse : AddressParser) (b : Brokered) (P : Brokered → Prop) : Prop :=
  (brokered parse).CanReach Brokered.Serves b fun b' => Served parse b b' ∧ P b'

namespace Brokered.WorkersReach

variable {P Q : Brokered → Prop}

theorem here (h : Serving parse b) (hP : P b) : b.WorkersReach parse P :=
  ⟨b, .refl b, .refl h, hP⟩

theorem trans (h : b.WorkersReach parse P)
    (hP : ∀ b', Served parse b b' → P b' → b'.WorkersReach parse Q) : b.WorkersReach parse Q :=
  Machine.CanReach.trans_keeping (fun _ _ _ => Served.trans) h hP

theorem of_step (h : Serving parse b) (hserves : b.Serves (.step l))
    (hnormal : BrokeredNormal b (.step l))
    (hst : (brokered parse).step b (.step l) = some (b.afterStep l p))
    (hs : p.messaging.halted = none) (hP : P (b.afterStep l p)) : b.WorkersReach parse P :=
  .head hserves hst ⟨_, .refl _, served_of_step h hnormal hst hs, hP⟩

end Brokered.WorkersReach

end Serve

/-! ### Sends end -/

section Send

variable {parse : AddressParser} {b : Brokered} {r : RecvId}

/-- The send of a callback comes nearer to its end. -/
theorem exists_exec (h : Serving parse b) {pc : SendPc} {args : SendArgs}
    (hf : b.process.sender (.worker r) = .sending pc args) : b.WorkersReach parse fun b' =>
      b'.process.messaging = b.process.messaging ∧
        (b'.process.sender (.worker r)).rank < (SendFrame.sending pc args).rank := by
  obtain ⟨x, f, hstep, hthrow⟩ := args.exists_sendMessage parse pc
  have hlt := (SendArgs.sendMessage_cases hstep).rank_lt
  refine .of_step (l := .exec (.worker r) x)
    (p := (b.process.record (.worker r) (args.calls x pc)).goto (.worker r) f) h
    ⟨⟨r, rfl⟩, fun hx => ⟨args, by rw [hf, hthrow hx]⟩⟩ (fun l hl => (by cases hl)) ?_ h.running
    ⟨rfl, by simpa using hlt⟩
  simp [brokered, Brokered.step, Brokered.allows, Process.step, h.running, hf, hstep,
    Brokered.afterStep]

/-- **The send of a callback can end.** -/
theorem exists_idle (h : Serving parse b) (r : RecvId) : b.WorkersReach parse fun b' =>
    b'.process.messaging = b.process.messaging ∧ b'.process.idle (.worker r) = true := by
  refine Machine.CanReach.of_rank (P := fun n b' => Served parse b b' ∧
    b'.process.messaging = b.process.messaging ∧ (b'.process.sender (.worker r)).rank = n)
    (fun n b₁ hb₁ => ?_) ⟨.refl h, rfl, rfl⟩
  obtain ⟨hserved, hsame, rfl⟩ := hb₁
  cases hf : b₁.process.sender (.worker r) with
  | idle last => exact .here (Or.inl ⟨hserved, hsame, by simp [Process.idle, hf]⟩)
  | sending pc args =>
    obtain ⟨b₂, hr, hserved', hsame', hlt⟩ := exists_exec hserved.serving hf
    exact ⟨b₂, hr, Or.inr ⟨_, hlt, hserved.trans hserved', hsame'.trans hsame, rfl⟩⟩

end Send

/-! ### Workers go on -/

section Worker

variable {parse : AddressParser} {b : Brokered} {r : RecvId} {a : WorkerAct} {s : State}

/-- The broker plays along. -/
theorem Brokered.allows_work (hfetch : ∀ m, a ≠ .fetch m)
    (hopen : a.acknowledges = true → (b.recv r).isOpen = true) :
    b.allows (.messaging (.work r a)) = true := by
  cases a with
  | fetch m => exact absurd rfl (hfetch m)
  | acknowledge => exact hopen rfl
  | acknowledgeThrow applied =>
    cases applied with
    | true => exact hopen rfl
    | false => rfl
  | _ => rfl

/-- A step of a worker, after the send of its callback. -/
theorem exists_work (h : Serving parse b)
    (hl : WorkerGoesOn b.process.messaging (.work r a) ∨ a = .acknowledge)
    (hopen : a.acknowledges = true → (b.recv r).isOpen = true)
    (hst : qpid.step b.process.messaging (.work r a) = some s) (hs : s.halted = none) :
    b.WorkersReach parse fun b' => b'.process.messaging = s := by
  refine (exists_idle h r).trans fun b₁ hserved hb₁ => ?_
  obtain ⟨hsame, hidle⟩ := hb₁
  have hnormal : NormalPath b.process.messaging (.work r a) := by
    rcases hl with hl | rfl
    · exact hl.1.normalPath
    · exact normalPath_of_work rfl
  have hfetch : ∀ m, a ≠ .fetch m := by
    rintro m rfl
    rcases hl with hl | hl
    · cases hl.1.2.2
    · cases hl
  refine .of_step (l := .messaging (.work r a)) (p := { b₁.process with messaging := s })
    hserved.serving ?_ ?_ ?_ hs rfl
  · rw [← hsame] at hl
    exact hl.imp_right fun ha => ⟨r, by rw [ha]⟩
  · rintro l hl'
    cases hl'
    rwa [hsame]
  · have hallows : b₁.allows (.messaging (.work r a)) = true :=
      Brokered.allows_work hfetch (by rwa [Brokered.recv, hsame])
    rw [← hsame] at hst
    simp [brokered, Brokered.step, hallows, Process.step, Label.actor, hidle, Brokered.afterStep,
      show State.step b₁.process.messaging (.work r a) = some s from hst]

/-- What the workers can do without the broker, they can do with it. -/
theorem exists_workers (h : Serving parse b)
    (hr : qpid.ReachableWhere WorkerGoesOn b.process.messaging s) (hs : s.halted = none) :
    b.WorkersReach parse fun b' => b'.process.messaging = s := by
  induction hr with
  | refl => exact .here h rfl
  | tail _ hst ih =>
    obtain ⟨l, hl, hst⟩ := hst
    refine (ih (step_cases hst).1).trans fun b₁ hserved hb₁ => ?_
    subst hb₁
    obtain ⟨r, a, rfl⟩ := hl.2
    refine exists_work hserved.serving (Or.inl hl) (fun ha => ?_) hst hs
    have hno := hl.1.2.2
    unfold Label.reachesBroker at hno
    cases a <;> simp_all [WorkerAct.acknowledges]

/-- **The mutex can be freed** while the worker of `r` waits for it. -/
theorem exists_ready (h : Serving parse b) (hr : (b.recv r).pc.locked = false) :
    b.WorkersReach parse fun b' =>
      b'.process.messaging.mMutex = none ∧ b'.recv r = b.recv r := by
  obtain ⟨s, hreach, hsame, hs⟩ := exists_free h.messaging hr
  refine (exists_workers h hreach hsame.running.running).trans fun b' hserved hb' => ?_
  subst hb'
  exact .here hserved.serving hs

end Worker

/-! ### A worker comes back to `receiverFetch` -/

namespace WorkerPc

/-- How far a worker in its loop is from `receiverFetch`. -/
def toFetch : WorkerPc → ℕ
  | .test => 1
  | .acknowledge => 2
  | .unlock => 3
  | .callback _ => 4
  | .call _ => 5
  | .lock _ => 6
  | .unborn | .fetch | .handler | .handlerClose | .exited => 0

/-- The step that takes a worker in its loop nearer to `receiverFetch`. -/
def onward : WorkerPc → WorkerAct
  | .lock _ => .lock
  | .call _ => .invoke
  | .callback _ => .callbackReturn
  | .unlock => .unlock
  | .acknowledge => .acknowledge
  | .test | .unborn | .fetch | .handler | .handlerClose | .exited => .test

theorem onward_cases (pc : WorkerPc) :
    pc.onward.escapes = false ∧ (pc.onward = .acknowledge ∨ pc.onward.waits = false) ∧
      ∀ r, (Label.work r pc.onward).isNormal = true := by
  cases pc <;> simp [onward, WorkerAct.escapes, WorkerAct.waits, Label.isNormal]

theorem onward_ne_lock {pc : WorkerPc} (h : pc.locked = true) : pc.onward ≠ .lock := by
  cases pc <;> simp_all [onward, locked]

end WorkerPc

/-- The worker of the receiver receives from the exchange. -/
structure Receiver.Attends (R : Receiver) (exchange : String) : Prop where
  exchange : R.mExchange = exchange
  isOpen : R.isOpen = true
  active : R.mReceivingActive = true
  inLoop : R.pc.inLoop = true

theorem Receiver.Attends.exists_onward {R : Receiver} {exchange : String} (h : R.Attends exchange)
    (hpc : R.pc ≠ .fetch) : ∃ R', R.waitForMessages R.pc.onward = some R' ∧ R'.Attends exchange ∧
      R'.pc.toFetch < R.pc.toFetch := by
  obtain ⟨hexchange, hopen, hactive, hloop⟩ := h
  unfold waitForMessages
  cases hp : R.pc with
  | fetch => exact absurd hp hpc
  | unborn | handler | handlerClose | exited =>
    rw [hp] at hloop
    cases hloop
  | test =>
    refine ⟨_, rfl, ⟨hexchange, hopen, hactive, ?_⟩, ?_⟩ <;>
      simp [hactive, WorkerPc.inLoop, WorkerPc.toFetch]
  | _ => exact ⟨_, rfl, ⟨hexchange, hopen, hactive, rfl⟩, by simp [WorkerPc.toFetch]⟩

section Fetch

variable {parse : AddressParser} {b : Brokered} {r : RecvId} {exchange : String}

/-- The worker takes a step towards `receiverFetch`, the mutex being free or its own. -/
theorem onward_of_free (h : Serving parse b) (hr : (b.recv r).Attends exchange)
    (hpc : (b.recv r).pc ≠ .fetch)
    (hm : b.process.messaging.mMutex = none ∨ (b.recv r).pc.locked = true) :
    b.WorkersReach parse fun b' => (b'.recv r).Attends exchange ∧
      (b'.recv r).pc.toFetch < (b.recv r).pc.toFetch := by
  obtain ⟨m, hm⟩ := WorkerAct.exists_mutex r (hm.imp_right WorkerPc.onward_ne_lock)
  obtain ⟨R, hw, hattends, hlt⟩ := hr.exists_onward hpc
  obtain ⟨hesc, hwaits, hnormal⟩ := (b.recv r).pc.onward_cases
  refine (exists_work h ?_ (fun _ => hr.isOpen) (h.messaging.work hm hw hesc) rfl).trans
    fun b' hserved hb' => ?_
  · rcases hwaits with hack | hwaits
    · exact Or.inr hack
    · exact Or.inl ⟨.of_not_waits hwaits (hnormal r), r, _, rfl⟩
  · have hR : b'.recv r = R := by rw [Brokered.recv, hb', State.worked_recv, if_pos rfl]
    exact .here hserved.serving (by rw [hR]; exact ⟨hattends, hlt⟩)

/-- The worker can come nearer to `receiverFetch`. -/
theorem exists_onward (h : Serving parse b) (hr : (b.recv r).Attends exchange)
    (hpc : (b.recv r).pc ≠ .fetch) : b.WorkersReach parse fun b' =>
      (b'.recv r).Attends exchange ∧ (b'.recv r).pc.toFetch < (b.recv r).pc.toFetch := by
  cases hlocked : (b.recv r).pc.locked with
  | true => exact onward_of_free h hr hpc (Or.inr hlocked)
  | false =>
    refine (exists_ready h hlocked).trans fun b' hserved hb' => ?_
    obtain ⟨hfree, heq⟩ := hb'
    rw [← heq] at hr hpc ⊢
    exact onward_of_free hserved.serving hr hpc (Or.inl hfree)

/-- **A worker in its loop can come back to `receiverFetch`.** -/
theorem exists_fetch (h : Serving parse b) (hr : (b.recv r).Attends exchange) :
    b.WorkersReach parse fun b' => (b'.recv r).Attends exchange ∧ (b'.recv r).pc = .fetch := by
  refine Machine.CanReach.of_rank (P := fun n b' => Served parse b b' ∧
    (b'.recv r).Attends exchange ∧ (b'.recv r).pc.toFetch = n) (fun n b₁ hb₁ => ?_)
    ⟨.refl h, hr, rfl⟩
  obtain ⟨hserved, hr₁, rfl⟩ := hb₁
  by_cases hpc : (b₁.recv r).pc = .fetch
  · exact .here (Or.inl ⟨hserved, hr₁, hpc⟩)
  · obtain ⟨b₂, hreach, hserved', hr₂, hlt⟩ := exists_onward hserved.serving hr₁ hpc
    exact ⟨b₂, hreach, Or.inr ⟨_, hlt, hserved.trans hserved', hr₂, rfl⟩⟩

end Fetch

/-! ### The queue -/

section Queue

variable {parse : AddressParser} {b : Brokered} {r : RecvId} {exchange : String}

/-- What a receiver has fetched is acknowledged when it comes back to `receiverFetch`. -/
theorem Books.place_of_fetch (h : Books b r) {L : Ledger Message} (hr : Records (b.recv r) L)
    (hpc : (b.recv r).pc = .fetch) {d : ℕ} (hd : d ∈ b.fetched r) :
    b.broker.place d = .acked r := by
  have hk := hr.pc
  rw [hpc] at hk
  have hall : L.acked = L.fetched.length := hk
  have hlen : (b.recv r).acked.length = (b.fetched r).length := by
    rw [h.length_fetched, hr.acked, hr.fetched, L.length_ackedList, hall]
  rw [h.acked, hlen, List.take_length]
  exact hd

/-- The receiver after `receiverFetch` has returned `m`. -/
def Receiver.afterFetch (R : Receiver) (m : Message) : Receiver :=
  { R with pc := .lock m, fetched := R.fetched ++ [m] }

theorem Receiver.Attends.afterFetch {R : Receiver} (h : R.Attends exchange) (m : Message) :
    (R.afterFetch m).Attends exchange :=
  ⟨h.exchange, h.isOpen, h.active, rfl⟩

/-- The state after the worker of `r` has fetched the message `d`. -/
def Brokered.fetch (b : Brokered) (r : RecvId) (d : ℕ) (m : Message) : Brokered :=
  b.afterFetch r d (b.process.messaging.worked r ((b.recv r).afterFetch m)
    b.process.messaging.mMutex)

@[simp] theorem Brokered.fetch_recv (r : RecvId) (d : ℕ) (m : Message) :
    (b.fetch r d m).recv r = (b.recv r).afterFetch m :=
  (State.worked_recv ..).trans (if_pos rfl)

@[simp] theorem Brokered.fetch_fetched (r : RecvId) (d : ℕ) (m : Message) :
    (b.fetch r d m).fetched r = b.fetched r ++ [d] := by
  simp [fetch, Brokered.afterFetch]

theorem Brokered.fetch_place {d x : ℕ} (hx : x ≠ d) (m : Message) :
    (b.fetch r d m).broker.place x = b.broker.place x := by
  simp [fetch, Brokered.afterFetch, hx]

/-- The worker fetches a message that is in the queue of its exchange. -/
theorem step_fetch (h : Serving parse b) (hidle : b.process.idle (.worker r) = true)
    (hr : (b.recv r).Attends exchange) (hpc : (b.recv r).pc = .fetch) {d : ℕ} {m : Message}
    (ha : b.broker.published[d]? = some ⟨exchange, m⟩) (hq : b.broker.place d = .queued) :
    (brokered parse).step b (.fetch r d) = some (b.fetch r d m) := by
  have hst := h.messaging.work (r := r) (a := .fetch m) (R := (b.recv r).afterFetch m) rfl
    (by simp [Receiver.waitForMessages, hpc, Receiver.afterFetch]) rfl
  simp [brokered, Brokered.step, ha, hr.isOpen, hq, hr.exchange, Process.step, Label.actor, hidle,
    Brokered.fetch, Brokered.afterFetch,
    show State.step b.process.messaging (.work r (.fetch m)) = some _ from hst]

/-- A receiver that attends an exchange can fetch a message of it. -/
theorem exists_fetched (h : Serving parse b) (hr : (b.recv r).Attends exchange) {d : ℕ}
    {m : Message} (ha : b.broker.published[d]? = some ⟨exchange, m⟩)
    (hq : b.broker.place d = .queued) : (brokered parse).CanReach Brokered.Serves b fun b' =>
      Serving parse b' ∧ (b'.recv r).Attends exchange ∧ b'.fetched r = b.fetched r ++ [d] ∧
        ∀ x, x ≠ d → b.broker.place x = .queued → b'.broker.place x = .queued := by
  have hready : b.WorkersReach parse fun b' => (b'.recv r).Attends exchange ∧
      (b'.recv r).pc = .fetch ∧ b'.process.idle (.worker r) = true := by
    refine (exists_fetch h hr).trans fun b₁ hserved hb₁ =>
      (exists_idle hserved.serving r).trans fun b₂ hserved' hb₂ => .here hserved'.serving ?_
    rw [Brokered.recv, hb₂.1]
    exact ⟨hb₁.1, hb₁.2, hb₂.2⟩
  obtain ⟨b', hreach, hserved, hr', hpc, hidle⟩ := hready
  have ha' := published_of_reachable hreach ha
  have hst := step_fetch hserved.serving hidle hr' hpc ha' (hserved.queued d hq)
  have hnormal : BrokeredNormal b' (.fetch r d) := by
    intro l hl
    rw [BrokeredLabel.messaging, BrokeredLabel.label, ha'] at hl
    cases hl
    exact normalPath_of_work rfl
  refine ⟨b'.fetch r d m, hreach.tail (l := .fetch r d) trivial hst,
    ⟨hserved.serving.reach.tail hnormal hst, rfl⟩, ?_, ?_, fun x hx hxq => ?_⟩
  · rw [Brokered.fetch_recv]
    exact hr'.afterFetch m
  · rw [Brokered.fetch_fetched, hserved.fetched]
  · rw [Brokered.fetch_place hx]
    exact hserved.queued x hxq

/-- A receiver that attends an exchange can fetch all messages of it that are in the queue. -/
theorem exists_fetched_all (h : Serving parse b) (hr : (b.recv r).Attends exchange) {ds : List ℕ}
    (hds : ∀ d ∈ ds, (∃ m, b.broker.published[d]? = some ⟨exchange, m⟩) ∧
      (b.broker.place d = .queued ∨ d ∈ b.fetched r)) :
    (brokered parse).CanReach Brokered.Serves b fun b' =>
      Serving parse b' ∧ (b'.recv r).Attends exchange ∧ b.fetched r ⊆ b'.fetched r ∧
        ds ⊆ b'.fetched r := by
  induction ds generalizing b with
  | nil => exact .here ⟨h, hr, List.Subset.refl _, List.nil_subset _⟩
  | cons d ds ih =>
    obtain ⟨⟨m, ha⟩, hd⟩ := hds d List.mem_cons_self
    rcases hd with hq | hd
    · obtain ⟨b₁, hreach, h₁, hr₁, hfetched, hqueued⟩ := exists_fetched h hr ha hq
      have hsub : b.fetched r ⊆ b₁.fetched r := by
        rw [hfetched]
        exact List.subset_append_left _ _
      refine .of_reachable hreach ((ih h₁ hr₁ fun x hx => ?_).mono (fun _ _ => id) ?_)
      · obtain ⟨⟨m', ha'⟩, hx'⟩ := hds x (List.mem_cons_of_mem _ hx)
        refine ⟨⟨m', published_of_reachable hreach ha'⟩, ?_⟩
        rcases hx' with hxq | hxf
        · by_cases hxd : x = d
          · exact Or.inr (by rw [hfetched, hxd]; simp)
          · exact Or.inl (hqueued x hxd hxq)
        · exact Or.inr (hsub hxf)
      · rintro b' - ⟨h', hr', hsub', hds'⟩
        refine ⟨h', hr', fun x hx => hsub' (hsub hx), List.cons_subset.2 ⟨hsub' ?_, hds'⟩⟩
        rw [hfetched]
        exact List.mem_append_right _ List.mem_cons_self
    · refine (ih h hr fun x hx => hds x (List.mem_cons_of_mem _ hx)).mono (fun _ _ => id) ?_
      rintro b' - ⟨h', hr', hsub', hds'⟩
      exact ⟨h', hr', hsub', List.cons_subset.2 ⟨hsub' hd, hds'⟩⟩

end Queue

/-- **A receiver can process the whole queue of its exchange.**  On the normal path, with any number
of objects, receivers and interleavings: while the worker of a receiver receives on an open
connection, the workers can go on, without a call of the application, until every message that was
in the queue of the exchange or held by the receiver has been given to the callback of the receiver,
the callback has returned, and the message is acknowledged. -/
theorem queue_processed {parse : AddressParser} {b : Brokered}
    (h : (brokered parse).ReachableWhere BrokeredNormal {} b)
    (hrun : b.process.messaging.halted = none) {r : RecvId} {exchange : String}
    (hr : (b.recv r).Attends exchange) : (brokered parse).CanReach Brokered.Serves b fun b' =>
      ∀ d a, b.broker.published[d]? = some a → a.exchange = exchange →
        b.broker.place d = .queued ∨ b.broker.place d = .held r →
        b'.broker.place d = .acked r ∧ b'.Processed r d ∧
          Receiver.callbackArgs exchange a.message ∈ (b'.recv r).invoked := by
  classical
  have hbooks := books_of_reachable h r
  -- the messages that are in the queue
  let ds := (List.range b.broker.published.length).filter fun d =>
    b.broker.place d = .queued ∧ ∃ m, b.broker.published[d]? = some ⟨exchange, m⟩
  have hds : ∀ d ∈ ds, (∃ m, b.broker.published[d]? = some ⟨exchange, m⟩) ∧
      (b.broker.place d = .queued ∨ d ∈ b.fetched r) := by
    intro d hd
    obtain ⟨-, hd⟩ := List.mem_filter.1 hd
    rw [decide_eq_true_eq] at hd
    exact ⟨hd.2, Or.inl hd.1⟩
  obtain ⟨b₁, hreach₁, h₁, hr₁, hsub, hall⟩ := exists_fetched_all ⟨h, hrun⟩ hr hds
  obtain ⟨b₂, hreach₂, hserved, -, hpc⟩ := exists_fetch h₁ hr₁
  have hreach := hreach₁.trans hreach₂
  refine ⟨b₂, hreach, fun d a ha he hd => ?_⟩
  obtain ⟨e, m⟩ := a
  obtain rfl : e = exchange := he
  have hmem : d ∈ b₂.fetched r := by
    rw [hserved.fetched]
    rcases hd with hq | hheld
    · refine hall (List.mem_filter.2 ⟨List.mem_range.2 (List.getElem?_eq_some_iff.1 ha).1, ?_⟩)
      exact decide_eq_true ⟨hq, m, ha⟩
    · exact hsub (List.mem_of_mem_drop ((hbooks.held d).1 hheld).2)
  obtain ⟨L, hL⟩ := records_of_reachable (qpid_reachable_of_brokered hserved.serving.reach) r
  have hbooks₂ := books_of_reachable hserved.serving.reach r
  have hacked := hbooks₂.place_of_fetch hL hpc hmem
  exact ⟨hacked, hbooks₂.processed_of_acked hL (published_of_reachable hreach ha) hacked⟩

/-- The label of a step of the library without sends. -/
def BrokeredLabel.own : BrokeredLabel → Option Label
  | .step (.messaging l) => some l
  | .arrive _ | .fetch _ _ | .step (.send _ _) | .step (.exec _ _) => none

/-- A run of one application thread for each object on the normal path. -/
theorem brokeredNormal_of_run {parse : AddressParser} {b : Brokered} {ls : List BrokeredLabel}
    (h : (brokered parse).run {} ls = some b)
    (happ : ∀ l ∈ ls.filterMap BrokeredLabel.own, ∀ s, AppOnly s l)
    (hnormal : ∀ l ∈ ls.filterMap BrokeredLabel.own, l.isNormal = true) :
    (brokered parse).ReachableWhere BrokeredNormal {} b := by
  have hlabels : ∀ l ∈ ls, ∀ b l', l.messaging b = some l' →
      AppOnly b.process.messaging l' ∧ l'.isNormal = true := by
    intro l hl b l' hl'
    rcases BrokeredLabel.messaging_cases hl' with rfl | ⟨r, d, m, -, rfl⟩
    · have hmem : l' ∈ ls.filterMap BrokeredLabel.own := List.mem_filterMap.2 ⟨_, hl, rfl⟩
      exact ⟨happ l' hmem _, hnormal l' hmem⟩
    · exact ⟨trivial, rfl⟩
  refine (Machine.reachableWhere_of_run h (raceFree_of_maps (brokered_maps_messaging parse)
    AppStops.init hlabels)).mono fun b l hc l' hl' => ?_
  exact normalPath_of_raceFree (hc l' hl').1 (hc l' hl').2

/-- A receiver with a message waits for the callback of another one, which sends, and a second
message is in the queue. -/
def waitingQueue : List BrokeredLabel :=
  messagingSteps (startLabels 0 "first" ++ startLabels 1 "second") ++
  [.arrive ⟨"first", ⟨"message", ⟨"reply"⟩⟩⟩, .arrive ⟨"second", ⟨"message", ⟨"reply"⟩⟩⟩,
    .arrive ⟨"second", ⟨"message", ⟨"reply"⟩⟩⟩] ++
  messagingSteps [.work 0 .test] ++ .fetch 0 0 ::
  messagingSteps [.work 0 .lock, .work 0 .invoke] ++
  [.step (.send (.worker 0) (.qpidSendMessage "answer" "reply" "")),
    .step (.exec (.worker 0) .ok)] ++
  messagingSteps [.work 1 .test] ++ [.fetch 1 1]

theorem queue_processed_waiting : ∃ b, (brokered plainName).run {} waitingQueue = some b ∧
    b.process.messaging.mMutex = some 0 ∧ b.process.idle (.worker 0) = false ∧
    b.broker.place 1 = .held 1 ∧ b.broker.place 2 = .queued ∧
    (brokered plainName).CanReach Brokered.Serves b fun b' =>
      b'.broker.place 1 = .acked 1 ∧ b'.broker.place 2 = .acked 1 := by
  have hrun : ∃ b, (brokered plainName).run {} waitingQueue = some b ∧
      b.process.messaging.mMutex = some 0 ∧ b.process.idle (.worker 0) = false ∧
      b.broker.place 1 = .held 1 ∧ b.broker.place 2 = .queued ∧
      b.broker.published[1]? = some ⟨"second", ⟨"message", ⟨"reply"⟩⟩⟩ ∧
      b.broker.published[2]? = some ⟨"second", ⟨"message", ⟨"reply"⟩⟩⟩ ∧
      b.process.messaging.halted = none ∧ (b.recv 1).Attends "second" :=
    ⟨_, rfl, rfl, rfl, rfl, rfl, rfl, rfl, rfl, rfl, rfl, rfl, rfl⟩
  obtain ⟨b, hb, hown, hsend, hheld, hqueued, h₁, h₂, hhalted, hattends⟩ := hrun
  have hlabels : waitingQueue.filterMap BrokeredLabel.own =
      startLabels 0 "first" ++ startLabels 1 "second" ++
        [.work 0 .test, .work 0 .lock, .work 0 .invoke, .work 1 .test] := rfl
  have hreach : (brokered plainName).ReachableWhere BrokeredNormal {} b := by
    refine brokeredNormal_of_run hb ?_ ?_ <;> rw [hlabels]
    · simp [startLabels, AppOnly, Operation.object]
    · decide
  refine ⟨b, hb, hown, hsend, hheld, hqueued,
    (queue_processed hreach hhalted hattends).mono (fun _ _ => id) fun b' _ hall => ?_⟩
  exact ⟨(hall 1 _ h₁ rfl (Or.inr hheld)).1, (hall 2 _ h₂ rfl (Or.inl hqueued)).1⟩

end Comyno
