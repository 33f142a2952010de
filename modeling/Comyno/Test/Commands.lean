import Comyno.Test.Step

/-!
# The commands and the client

A command of the interactive program is one operation of the client.  This file follows the
operation from its call to its return: at each frame it says what is known of the registry
`activeReceivers` and of the receivers that the commands have started.

## Main results

* `Command.Runs` : the frames of the operation of a command.
* `Orderly` : the invariant of the main thread; `orderly_of_reachable`.
* `Orderly.started` : after a start that returned `QPID_SUCCESS` the exchange is registered with the
  receiver that this very command has started.
* `Orderly.stopped` : when a reply is erased, after a stop that returned `QPID_SUCCESS`, no receiver
  of the exchange has a worker thread.
-/

namespace Comyno

open Conc

theorem Frame.eq_of_returned {f : Frame} {res : Result} (h : f.returned = some res) :
    f = .idle (some res) := by
  unfold Frame.returned at h
  split at h
  · rw [h]
  · cases h

/-- The exchange that a command starts. -/
def Command.starts : Command → Option String
  | .receiveMessages exchange | .receiveMessagesAndReply exchange _
  | .receiveMessagesAndPersist exchange => some exchange
  | .send _ | .receiveStop _ => none

/-- The main thread is at the frame in the operation of the command, or the operation has returned;
`reg` is the registry of the client, and `started` the commands that have started receivers. -/
inductive Command.Runs (reg : Registry) (started : RecvId → Option Command) :
    Command → Frame → Prop
  | send {c : SendOperation} {last : Option Result} : Runs reg started (.send c) (.idle last)
  -- a start
  | construct {c : Command} {e : String} : c.starts = some e → reg.lookup e = none →
      Runs reg started c (.construct client e)
  | start {c : Command} {e : String} {pc : StartPc} {r : RecvId} : c.starts = some e →
      reg.lookup e = none → Runs reg started c (.start pc client e r)
  | emplace {c : Command} {e : String} {r : RecvId} : c.starts = some e → reg.lookup e = none →
      started r = some c → Runs reg started c (.emplace client e r)
  | failed {c : Command} {e : String} {pc : DtorPc} {res : Result} {r : RecvId} :
      c.starts = some e → res ≠ .status .qpidSuccess →
      Runs reg started c (.dtor pc (.operation res) r)
  | started {c : Command} {e : String} {last : Option Result} : c.starts = some e →
      (last = some (.status .qpidSuccess) → ∃ r, reg.lookup e = some r ∧ started r = some c) →
      Runs reg started c (.idle last)
  -- a stop
  | index {e : String} : Runs reg started (.receiveStop e) (.index client e)
  | stop {e : String} {pc : StopPc} {r : RecvId} :
      Runs reg started (.receiveStop e) (.stop pc (.receiveStop client e) r)
  | erase {e : String} {st : QPIDStatus} : Runs reg started (.receiveStop e) (.erase client e st)
  | erased {e : String} {pc : DtorPc} {res : Result} {r : RecvId} : reg.lookup e = none →
      Runs reg started (.receiveStop e) (.dtor pc (.operation res) r)
  | stopped {e : String} {last : Option Result} : reg.lookup e = none →
      Runs reg started (.receiveStop e) (.idle last)

namespace Command.Runs

variable {s s' : State} {l : Label} {c : Command} {f : Frame} {reg reg' : Registry}
  {started started' : RecvId → Option Command}

/-- What other threads do leaves the operation alone. -/
theorem congr (h : c.Runs reg started f) (hreg : ∀ e, reg'.lookup e = reg.lookup e)
    (hstarted : (∀ e r, f ≠ .start .createThread client e r) → started' = started) :
    c.Runs reg' started' f := by
  cases h with
  | start he hnone => exact .start he (by rwa [hreg])
  | send => exact .send
  | construct he hnone => exact .construct he (by rwa [hreg])
  | emplace he hnone hc => exact .emplace he (by rwa [hreg]) (by rwa [hstarted (by simp)])
  | failed he hres => exact .failed he hres
  | started he hc =>
    refine .started he fun hl => ?_
    rw [hreg, hstarted (by simp)]
    exact hc hl
  | index => exact .index
  | stop => exact .stop
  | erase => exact .erase
  | erased hnone => exact .erased (by rwa [hreg])
  | stopped hnone => exact .stopped (by rwa [hreg])

/-- A step of the operation of a command. -/
theorem step (hr : c.Runs (s.activeReceivers client) started (s.frame (.app client)))
    (hs : Seated client s) (hl : Solo client s l) (hcall : ∀ c, l ≠ .call (.app client) c)
    (hnew : ∀ e r, s.frame (.app client) = .start .createThread client e r →
      s'.frame (.app client) = .emplace client e r → started' r = some c)
    (hold : (∀ e r, s.frame (.app client) ≠ .start .createThread client e r) → started' = started)
    (h : Step s l s') :
    c.Runs (s'.activeReceivers client) started' (s'.frame (.app client)) := by
  by_cases ht : l.thread = some (.app client)
  · have hidle : ∀ last, s.frame (.app client) ≠ .idle last := by
      rcases h.not_idle_of_thread ht with ⟨c', hc'⟩ | hidle
      · exact absurd hc' (hcall c')
      · exact hidle
    have hm := h.frame_move ht hcall
    generalize hf : s.frame (.app client) = f at hr hm
    generalize hf' : s'.frame (.app client) = f' at hm ⊢
    cases hr with
    | send | started | stopped => exact absurd hf (hidle _)
    | construct he hnone =>
      cases hm with
      | constructed hreg => exact .start he (by rwa [hreg])
      | constructThrew => exact .started he (by simp)
      | halted _ hreg => exact .construct he (by rwa [hreg])
    | start he hnone =>
      cases hm with
      | starting hreg | halted _ hreg => exact .start he (by rwa [hreg])
      | spawned hreg => exact .emplace he (by rwa [hreg]) (hnew _ _ hf hf')
      | startFailed hres hreg =>
        refine .failed he ?_
        rcases hres with rfl | rfl <;> simp
    | emplace he hnone hc =>
      have hsame := hold (by simp [hf])
      cases hm with
      | emplaced _ hreg =>
        refine .started he fun _ => ⟨_, ?_, by rwa [hsame]⟩
        simp [hreg]
      | emplaceTaken hq =>
        rw [hnone] at hq
        cases hq
      | halted _ hreg => exact .emplace he (by rwa [hreg]) (by rwa [hsame])
    | failed he hres =>
      cases hm with
      | destroying | halted => exact .failed he hres
      | destroyed => exact .started he fun hl => absurd (Option.some.inj hl) hres
    | index =>
      cases hm with
      | indexed => exact .stop
      | halted => exact .index
    | stop =>
      cases hm with
      | stopping | halted => exact .stop
      | stopped => exact .erase
    | erase =>
      cases hm with
      | erased _ hreg => exact .erased (by simp [hreg])
      | eraseNone hnone hreg => exact .stopped (by rwa [hreg])
      | halted => exact .erase
    | erased hnone =>
      cases hm with
      | destroying hreg | halted _ hreg => exact .erased (by rwa [hreg])
      | destroyed hreg => exact .stopped (by rwa [hreg])
  · rw [h.frame_of_ne ht]
    exact hr.congr (hs.lookup_of_ne hl h ht) hold

/-- The call of a start. -/
theorem of_call_start {e : String} (he : c.starts = some e)
    (h : Step s (.call (.app client) (.qpidReceiveMessages client e true)) s') :
    c.Runs (s'.activeReceivers client) started (s'.frame (.app client)) := by
  generalize hl : Label.call _ _ = l at h
  cases h <;> cases hl
  case callAlready => simpa using Runs.started he (by simp)
  case callConstruct _ hnone => simpa using Runs.construct he hnone

/-- The call of a stop. -/
theorem of_call_stop {e : String}
    (h : Step s (.call (.app client) (.qpidReceiveStop client e)) s') :
    Command.Runs (s'.activeReceivers client) started (.receiveStop e)
      (s'.frame (.app client)) := by
  generalize hl : Label.call _ _ = l at h
  cases h <;> cases hl
  case callInvalid _ hnone => simpa using Runs.stopped hnone
  case callIndex => simpa using Runs.index

/-- The operation of a stop has returned. -/
theorem lookup_of_stopped {e : String} {last : Option Result}
    (h : Command.Runs reg started (.receiveStop e) (.idle last)) : reg.lookup e = none := by
  cases h with
  | started he => cases he
  | stopped hnone => exact hnone

/-- The operation of a start has returned `QPID_SUCCESS`. -/
theorem lookup_of_started {e : String} (he : c.starts = some e)
    (h : c.Runs reg started (.idle (some (.status .qpidSuccess)))) :
    ∃ r, reg.lookup e = some r ∧ started r = some c := by
  cases h with
  | send | stopped => cases he
  | started he' hc =>
    cases he.symm.trans he'
    exact hc rfl

end Command.Runs

/-! ### The main thread -/

/-- `~QPIDMessaging` runs, or has returned. -/
def Frame.Destroys : Frame → Prop
  | .idle _ | .stopAll _ _ | .clearAll _ => True
  | .stop _ k _ => ∃ o todo, k = .destructor o todo
  | .dtor _ k _ => ∃ o, k = .clear o
  | .construct _ _ | .start _ _ _ _ | .emplace _ _ _ | .index _ _ | .erase _ _ _ => False

/-- The main thread is outside of the client, and not about to erase a reply. -/
def MainPc.quiet : MainPc → Bool
  | .wait _ _ | .erase _ _ | .destructor _ => false
  | .modules | .items _ | .handler _ | .commands _ | .call _ _ | .destroy _ | .terminated => true

/-- What is known of the frame of the main thread at its program point. -/
inductive MainPc.Settled (reg : Registry) (started : RecvId → Option Command) :
    MainPc → Frame → Prop
  | wait {c : Command} {todo : List Command} {f : Frame} : c.Runs reg started f →
      Settled reg started (.wait c todo) f
  | erase {e : String} {todo : List Command} {last : Option Result} : reg.lookup e = none →
      Settled reg started (.erase e todo) (.idle last)
  | destructor {objs : List StaticObject} {f : Frame} : f.Destroys →
      Settled reg started (.destructor objs) f
  | quiet {pc : MainPc} {last : Option Result} : pc.quiet = true →
      Settled reg started pc (.idle last)

/-- The main thread and the client are in step. -/
def Orderly (p : Program) : Prop :=
  p.main.Settled (p.messaging.activeReceivers client) p.startedBy (p.messaging.frame (.app client))

theorem FrameMove.destroys {s s' : State} {f f' : Frame} (hm : FrameMove s s' f f')
    (hf : f.Destroys) : f'.Destroys := by
  cases hm with
  | constructed | constructThrew | starting | spawned | startFailed | emplaced | emplaceTaken
  | indexed | erased | eraseNone => exact hf.elim
  | stopping | destroying | halted => exact hf
  | stopped =>
    obtain ⟨o, todo, rfl⟩ := hf
    trivial
  | destroyed =>
    obtain ⟨o, rfl⟩ := hf
    trivial
  | pickedStop => exact ⟨_, _, rfl⟩
  | pickedClear => exact ⟨_, rfl⟩
  | allStopped | allCleared => trivial

/-- The call of the destructor. -/
theorem Step.destroys_of_call {s s' : State} {t : Thread} {o : ObjId}
    (h : Step s (.call t (.destructor o)) s') : (s'.frame t).Destroys := by
  generalize hl : Label.call _ _ = l at h
  cases h <;> cases hl
  case callDestructor => simp [Frame.Destroys]

/-- The frame of an operation that goes on, or of a thread that executes none. -/
theorem Step.frame_of_not_call {s s' : State} {l : Label} (h : Step s l s') {t : Thread}
    (hcall : ∀ c, l ≠ .call t c) :
    FrameMove s s' (s.frame t) (s'.frame t) ∨ s'.frame t = s.frame t := by
  by_cases hl : l.thread = some t
  · exact Or.inl (h.frame_move hl hcall)
  · exact Or.inr (h.frame_of_ne hl)

section Step

variable {parse : AddressParser} {p p' : Program} {l : ProgramLabel} {b : BrokeredLabel}

/-- Only the creation of a worker thread changes what is recorded. -/
theorem recordStarted_eq (hs : Seated client p.messaging)
    (hno : ∀ e r, p.messaging.frame (.app client) ≠ .start .createThread client e r) :
    p.recordStarted b = p.startedBy := by
  have hnone : p.creates b = none := by
    unfold Program.creates
    split
    · rename_i t
      split
      · rename_i o e r c todo hf hm
        obtain ⟨rfl, rfl, -⟩ := hs.builds_of_frame hf (by simp)
        exact absurd hf (hno e r)
      · rfl
    · rfl
  rw [Program.recordStarted, hnone]

/-- The command that creates the worker thread of a receiver. -/
theorem creates_of_spawned {s : State} {l : Label} {c : Command} {todo : List Command}
    {e : String} {r : RecvId} (hl : b.messaging p.brokered = some l) (h : Step p.messaging l s)
    (hm : p.main = .wait c todo)
    (hf : p.messaging.frame (.app client) = .start .createThread client e r)
    (hf' : s.frame (.app client) = .emplace client e r) : p.creates b = some (r, c) := by
  have hlabel : l = .exec (.app client) .ok := by
    by_cases ht : l.thread = some (.app client)
    · cases h <;> cases ht <;> simp_all
    · rw [h.frame_of_ne ht, hf] at hf'
      cases hf'
  subst hlabel
  rcases BrokeredLabel.messaging_cases hl with rfl | ⟨_, _, _, -, hfetch⟩
  · simp only [Program.creates, hf, hm]
  · cases hfetch

/-- The creation of a worker thread is recorded. -/
theorem recordStarted_of_creates {c : Command} {r : RecvId} (h : p.creates b = some (r, c)) :
    p.recordStarted b r = some c := by
  rw [Program.recordStarted, h]
  exact Function.update_self ..

theorem exists_start_of_creates {c : Command} {r : RecvId} (h : p.creates b = some (r, c)) :
    ∃ t o e, p.messaging.frame t = .start .createThread o e r := by
  unfold Program.creates at h
  split at h
  · split at h <;> cases h
    exact ⟨_, _, _, ‹_›⟩
  · cases h

/-- What is recorded for a worker thread does not change. -/
theorem recordStarted_of_joinable (hborn : Born p.messaging) {r : RecvId}
    (hr : (p.recv r).thread ≠ .none) : p.recordStarted b r = p.startedBy r := by
  cases hc : p.creates b with
  | none => rw [Program.recordStarted, hc]
  | some x =>
    obtain ⟨q, c⟩ := x
    have hne : r ≠ q := by
      rintro rfl
      obtain ⟨t, o, e, hf⟩ := exists_start_of_creates hc
      exact hr (hborn.start_thread t _ o e r hf)
    rw [Program.recordStarted, hc]
    exact Function.update_of_ne hne ..

/-- A step of the broker, or of a send, creates no worker thread. -/
theorem recordStarted_of_messaging (h : b.messaging p.brokered = none) :
    p.recordStarted b = p.startedBy := by
  have hnone : p.creates b = none := by
    unfold Program.creates
    split
    · cases h
    · rfl
  rw [Program.recordStarted, hnone]

/-! ### The invariant -/

theorem MainPc.Settled.exists_idle {reg : Registry} {started : RecvId → Option Command}
    {pc : MainPc} {f : Frame} (h : pc.Settled reg started f) (hpc : pc.quiet = true) :
    ∃ last, f = .idle last := by
  cases h with
  | quiet => exact ⟨_, rfl⟩
  | wait | erase | destructor => cases hpc

theorem MainPc.quiet_of_read {pc pc' : MainPc} {token : List Char}
    (h : pc.read token = some pc') : pc.quiet = true ∧ pc'.quiet = true := by
  obtain ⟨rfl | ⟨_, rfl⟩, rfl | rfl | rfl | ⟨_, rfl⟩ | ⟨_, rfl⟩⟩ := MainPc.read_cases h <;>
    exact ⟨rfl, rfl⟩

/-- The operation has returned, and the handler goes on. -/
theorem Command.Runs.epilogue {c : Command} {todo : List Command} {reg : Registry}
    {started : RecvId → Option Command} {q : Process} {res : Result}
    (h : c.Runs reg started (q.messaging.frame (.app client))) (hres : c.result q = some res) :
    (c.epilogue todo res).Settled reg started (q.messaging.frame (.app client)) := by
  have hidle : ∃ last, q.messaging.frame (.app client) = .idle last := by
    cases c with
    | send =>
      generalize q.messaging.frame (.app client) = f at h
      cases h with
      | send => exact ⟨_, rfl⟩
      | construct he | start he | emplace he | failed he | started he => cases he
    | receiveMessages | receiveMessagesAndReply | receiveMessagesAndPersist | receiveStop =>
      exact ⟨_, Frame.eq_of_returned hres⟩
  obtain ⟨last, hf⟩ := hidle
  rw [hf] at h ⊢
  unfold Command.epilogue
  split
  · exact .erase h.lookup_of_stopped
  · exact .quiet rfl
  · exact .quiet rfl
  · exact .quiet rfl

theorem Orderly.init : Orderly {} := .quiet rfl

/-- A step of the library. -/
theorem Orderly.library {q : Brokered} (ho : Orderly p) (hs : Seated client p.messaging)
    (ha : p.allows b = true) (hb : (brokered parse).step p.brokered b = some q) :
    Orderly (p.afterLibrary b q) := by
  rcases (brokered_maps_messaging parse).step_cases hb with ⟨hl, heq⟩ | ⟨l, hl, hst⟩
  · have hm : q.process.messaging = p.messaging := heq
    unfold Orderly
    rw [Program.afterLibrary_startedBy, recordStarted_of_messaging hl, Program.messaging,
      Program.afterLibrary_brokered, hm]
    exact ho
  · have hst : Step p.messaging l q.process.messaging := (Comyno.step_cases hst).2
    have hcall : ∀ c, l ≠ .call (.app client) c := by
      rintro c rfl
      exact not_call_of_allows ha _ c hl
    have hsolo : Solo client p.messaging l := by
      rintro t c rfl
      exact absurd hl (not_call_of_allows ha t c)
    have hmove := hst.frame_of_not_call hcall
    show p.main.Settled (q.process.messaging.activeReceivers client) (p.recordStarted b)
      (q.process.messaging.frame (.app client))
    unfold Orderly at ho
    generalize hpc : p.main = pc at ho
    generalize hf : p.messaging.frame (.app client) = f at ho
    rw [hf] at hmove
    cases ho with
    | wait hr =>
      subst hf
      refine .wait (hr.step hs hsolo hcall ?_ (fun hno => recordStarted_eq hs hno) hst)
      exact fun e r h₁ h₂ => recordStarted_of_creates (creates_of_spawned hl hst hpc h₁ h₂)
    | erase hnone =>
      have hne : l.thread ≠ some (.app client) := by
        intro ht
        rcases hst.not_idle_of_thread ht with ⟨c, hc⟩ | hidle
        · exact hcall c hc
        · exact hidle _ hf
      rw [hst.frame_of_ne hne, hf]
      exact .erase (by rwa [hs.lookup_of_ne hsolo hst hne])
    | destructor hd =>
      rcases hmove with hmove | heq
      · exact .destructor (hmove.destroys hd)
      · rw [heq]
        exact .destructor hd
    | quiet hq =>
      rcases hmove with hmove | heq
      · generalize q.process.messaging.frame (.app client) = f' at hmove ⊢
        cases hmove with
        | halted => exact .quiet hq
      · rw [heq]
        exact .quiet hq

/-- The main thread calls the operation of a command. -/
theorem Orderly.call {q : Brokered} {c : Command} {todo : List Command} (ho : Orderly p)
    (hm : p.main = .call c todo) (hb : (brokered parse).step p.brokered (.step c.label) = some q) :
    Orderly { p with main := .wait c todo, brokered := q } := by
  obtain ⟨last, hf⟩ := ho.exists_idle (by rw [hm]; rfl)
  refine .wait ?_
  rcases (brokered_maps_messaging parse).step_cases hb with ⟨hl, heq⟩ | ⟨l, hl, hst⟩
  · have hm : q.process.messaging = p.messaging := heq
    rw [Program.messaging, hm, hf]
    cases c with
    | send => exact .send
    | receiveMessages | receiveMessagesAndReply | receiveMessagesAndPersist | receiveStop =>
      cases hl
  · have hst : Step p.messaging l q.process.messaging := (Comyno.step_cases hst).2
    cases c with
    | send => cases hl
    | receiveMessages | receiveMessagesAndReply | receiveMessagesAndPersist =>
      cases hl
      exact .of_call_start rfl hst
    | receiveStop =>
      cases hl
      exact .of_call_stop hst

/-- **The main thread and the client stay in step.** -/
theorem ProgramStep.orderly (h : ProgramStep parse p l p') (hs : Seated client p.messaging)
    (ho : Orderly p) : Orderly p' := by
  have hquiet : ∀ {pc : MainPc}, p.main.quiet = true → pc.quiet = true →
      pc.Settled (p.messaging.activeReceivers client) p.startedBy
        (p.messaging.frame (.app client)) := by
    intro pc hold hnew
    obtain ⟨last, hf⟩ := ho.exists_idle hold
    rw [hf]
    exact .quiet hnew
  cases h with
  | read hr =>
    obtain ⟨hold, hnew⟩ := MainPc.quiet_of_read hr
    exact hquiet hold hnew
  | input hm | finish hm | enter hm | destroy hm => exact hquiet (by rw [hm]; rfl) rfl
  | call hm hb => exact ho.call hm hb
  | returned hm hres =>
    unfold Orderly at ho
    generalize hf : p.messaging.frame (.app client) = f at ho
    rw [hm] at ho
    cases ho with
    | wait hr =>
      subst hf
      exact hr.epilogue hres
    | quiet hq => cases hq
  | erase hm =>
    unfold Orderly at ho ⊢
    generalize p.messaging.frame (.app client) = f at ho ⊢
    rw [hm] at ho
    cases ho with
    | erase => exact .quiet rfl
    | quiet hq => cases hq
  | destructor hm hb =>
    rcases (brokered_maps_messaging parse).step_cases hb with ⟨hl, -⟩ | ⟨l, hl, hst⟩
    · cases hl
    · cases hl
      exact .destructor (Comyno.step_cases hst).2.destroys_of_call
  | destroyed hm hf =>
    unfold Orderly
    rw [hf]
    exact .quiet rfl
  | goto | index | indexFault | await | pgMessagePersist | pgMessagePersistFault => exact ho
  | qpidSendMessage ha hb =>
    rcases (brokered_maps_messaging parse).step_cases hb with ⟨-, heq⟩ | ⟨l, hl, -⟩
    · have hm : _ = p.messaging := heq
      unfold Orderly
      rw [Program.messaging, hm]
      exact ho
    · cases hl
  | library ha hb => exact ho.library hs ha hb

theorem orderly_of_reachable {C : Program → ProgramLabel → Prop}
    (h : (program parse).ReachableWhere C {} p) : Orderly p :=
  h.invariant_of (fun _ hr => seated_of_reachable (solo_reachable hr)) Orderly.init
    fun _ _ _ hs ho _ hst => (program_step_cases hst).2.orderly hs ho

/-- A receiver is started by the command of the main thread. -/
theorem Orderly.exists_command {pc : StartPc} {e : String} {r : RecvId} (ho : Orderly p)
    (hf : p.messaging.frame (.app client) = .start pc client e r) :
    ∃ c todo, p.main = .wait c todo ∧ c.starts = some e := by
  unfold Orderly at ho
  generalize p.main = m at ho ⊢
  rw [hf] at ho
  cases ho with
  | wait hr =>
    cases hr with
    | start he => exact ⟨_, _, rfl, he⟩
  | destructor hd => exact hd.elim

/-- **The worker threads after a step of the library** were there before, or the command of the main
thread has created one. -/
theorem Orderly.joinable_cases {q : Brokered} (ho : Orderly p) (hs : Seated client p.messaging)
    (hborn : Born p.messaging) (hb : (brokered parse).step p.brokered b = some q) {r : RecvId}
    (hr : (q.process.messaging.recv r).thread = .joinable) :
    (p.recv r).thread = .joinable ∧ p.recordStarted b r = p.startedBy r ∧
        (q.process.messaging.recv r).mExchange = (p.recv r).mExchange ∨
      ∃ c todo e, p.main = .wait c todo ∧ c.starts = some e ∧ p.creates b = some (r, c) ∧
        p.recordStarted b r = some c ∧ (q.process.messaging.recv r).mExchange = e := by
  rcases (brokered_maps_messaging parse).step_cases hb with ⟨hl, heq⟩ | ⟨l, hl, hst⟩
  · have hm : q.process.messaging = p.messaging := heq
    rw [hm] at hr ⊢
    exact Or.inl ⟨hr, by rw [recordStarted_of_messaging hl], rfl⟩
  · have hst : Step p.messaging l q.process.messaging := (Comyno.step_cases hst).2
    rcases hst.joinable_of hr with hold | ⟨t, o, e, rfl, hf, hf'⟩
    · refine Or.inl ⟨hold, recordStarted_of_joinable hborn (by simp [hold]), ?_⟩
      refine hst.mExchange r fun t o e _ hf => ?_
      rw [hborn.start_thread t _ o e r hf] at hold
      cases hold
    · obtain ⟨rfl, rfl, hexchange⟩ := hs.builds_of_frame hf (by simp)
      obtain ⟨c, todo, hm, he⟩ := ho.exists_command hf
      have hcreates := creates_of_spawned hl hst hm hf hf'
      refine Or.inr ⟨c, todo, e, hm, he, hcreates, recordStarted_of_creates hcreates, ?_⟩
      rw [hst.mExchange r fun u o' e' hu hf' => ?_]
      · exact hexchange (Or.inr rfl)
      · cases hu
        rw [hf] at hf'
        cases hf'

/-! ### What a command has returned -/

/-- The operation of the command that the main thread is in. -/
theorem Orderly.runs {c : Command} {todo : List Command} (ho : Orderly p)
    (hm : p.main = .wait c todo) :
    c.Runs (p.messaging.activeReceivers client) p.startedBy (p.messaging.frame (.app client)) := by
  unfold Orderly at ho
  generalize p.messaging.frame (.app client) = f at ho ⊢
  rw [hm] at ho
  cases ho with
  | wait hr => exact hr
  | quiet hq => cases hq

/-- **A start that has returned `QPID_SUCCESS`** has registered the receiver that it has started. -/
theorem Orderly.started {c : Command} {todo : List Command} {e : String} (ho : Orderly p)
    (hm : p.main = .wait c todo) (he : c.starts = some e)
    (hres : c.result p.brokered.process = some (.status .qpidSuccess)) :
    ∃ r, p.messaging.Registered client e r ∧ p.startedBy r = some c := by
  have hf : p.messaging.frame (.app client) = .idle (some (.status .qpidSuccess)) := by
    cases c with
    | send | receiveStop => cases he
    | receiveMessages | receiveMessagesAndReply | receiveMessagesAndPersist =>
      exact Frame.eq_of_returned hres
  have hr := ho.runs hm
  rw [hf] at hr
  exact hr.lookup_of_started he

/-- **A reply is erased** only when no receiver of the exchange has a worker thread. -/
theorem Orderly.stopped {e : String} {todo : List Command} (ho : Orderly p)
    (hs : Seated client p.messaging) (hm : p.main = .erase e todo) {r : RecvId}
    (hr : (p.recv r).thread = .joinable) : (p.recv r).mExchange ≠ e := by
  unfold Orderly at ho
  generalize hf : p.messaging.frame (.app client) = f at ho
  rw [hm] at ho
  cases ho with
  | erase hnone =>
    rintro rfl
    have hreg : _ = some r := hs.registered hf hr
    rw [hnone] at hreg
    cases hreg
  | quiet hq => cases hq

end Step

end Comyno
