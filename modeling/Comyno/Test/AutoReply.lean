import Comyno.Test.Callback
import Comyno.Test.Commands

/-!
# The configured replies

`item_qpid_receive_messages_and_reply(e, r)` stores `r` for `e` in `exchangeReply`, with an
`emplace` that keeps an entry that is there, and then starts a receiver whose callback looks the
reply up.  The entry is stored although the start may fail, and it is erased only after a stop that
returned `QPID_SUCCESS`, although the receiver is gone after a stop that returned `QPID_ERROR` too.

No lock protects the map: the main thread writes it, and the callbacks look it up and may insert an
entry.  Each access is one step of the machine `program`, so accesses that overlap are left out.

## Main results

* `auto_reply_of_reachable` : as long as no start finds another reply and no failing start stores
  one (`Program.keepsReplies`), the callback sends the reply of the very command that has started
  its receiver, and failing commands leave the replies alone.
* `auto_reply_stale` : two runs of the program in which this fails.
-/

namespace Comyno

open Conc

/-! ### The condition -/

/-- The reply of the command is the one that its `emplace` leaves. -/
def Command.agrees (m : Replies) : Command → Bool
  | .receiveMessagesAndReply exchange replyMessage =>
    m exchange = none ∨ m exchange = some replyMessage
  | .send _ | .receiveMessages _ | .receiveMessagesAndPersist _ | .receiveStop _ => true

/-- The `emplace` of the command, if it has one, finds an entry. -/
def Command.finds (m : Replies) : Command → Bool
  | .receiveMessagesAndReply exchange _ => m exchange ≠ none
  | .send _ | .receiveMessages _ | .receiveMessagesAndPersist _ | .receiveStop _ => true

/-- The call of the client has returned a status other than `QPID_SUCCESS`. -/
def Command.failed (q : Process) (c : Command) : Bool :=
  match c.result q with
  | some (.status st) => st ≠ .qpidSuccess
  | _ => false

/-- The step keeps `exchangeReply` and the receivers in step: a receiver is started with the reply
that is stored, and a command that has failed has not stored any. -/
def Program.keepsReplies (p : Program) : ProgramLabel → Bool
  | .library b => match p.creates b with
    | some (_, c) => c.agrees p.before
    | none => true
  | .main => match p.main with
    | .wait c _ => !c.failed p.brokered.process || c.finds p.before
    | _ => true
  | .read _ | .input _ | .callback _ => true

/-! ### `exchangeReply` -/

theorem Replies.emplace_of_some {m : Replies} {e f : String} {reply text : String}
    (h : m e = some reply) : m.emplace f text e = some reply := by
  cases hf : m f with
  | none =>
    have hne : e ≠ f := by
      rintro rfl
      rw [h] at hf
      cases hf
    rw [Replies.emplace, hf]
    exact (Function.update_of_ne hne ..).trans h
  | some => rwa [Replies.emplace, hf]

theorem Replies.index_of_some {m : Replies} {e reply : String} (h : m e = some reply) :
    m.index e = (m, reply) := by
  rw [Replies.index, h]

/-- A command keeps the entries that are there. -/
theorem Command.prologue_of_some {c : Command} {m : Replies} {e reply : String}
    (h : m e = some reply) : c.prologue m e = some reply := by
  cases c with
  | receiveMessagesAndReply => exact Replies.emplace_of_some h
  | send | receiveMessages | receiveMessagesAndPersist | receiveStop => exact h

/-- The entry that a start leaves is its own reply. -/
theorem Command.prologue_of_agrees {e reply : String} {m : Replies}
    (h : (Command.receiveMessagesAndReply e reply).agrees m = true) :
    (Command.receiveMessagesAndReply e reply).prologue m e = some reply := by
  rcases of_decide_eq_true h with hnone | hsome
  · simp [Command.prologue, Replies.emplace, hnone]
  · exact Replies.emplace_of_some hsome

/-- A command stores nothing exactly if its `emplace` finds an entry. -/
theorem Command.prologue_eq_self_iff {c : Command} {m : Replies} :
    c.prologue m = m ↔ c.finds m = true := by
  cases c with
  | receiveMessagesAndReply e reply =>
    cases he : m e with
    | none =>
      have hnew : m.emplace e reply e = some reply := by simp [Replies.emplace, he]
      refine iff_of_false (fun h => ?_) (by simp [Command.finds, he])
      rw [← congrFun h e, Command.prologue, hnew] at he
      cases he
    | some text =>
      exact iff_of_true (by simp [Command.prologue, Replies.emplace, he])
        (by simp [Command.finds, he])
  | send | receiveMessages | receiveMessagesAndPersist | receiveStop => exact iff_of_true rfl rfl

/-! ### The invariant -/

/-- The command that the main thread is in. -/
def MainPc.command : MainPc → Option Command
  | .call c _ | .wait c _ => some c
  | .modules | .items _ | .handler _ | .commands _ | .erase _ _ | .destroy _ | .destructor _
  | .terminated => none

/-- `exchangeReply`, the receivers and the callbacks agree. -/
structure Configured (p : Program) : Prop where
  /-- The reply of a receiver is stored for its exchange while its worker exists. -/
  live : ∀ r e reply, p.startedBy r = some (.receiveMessagesAndReply e reply) →
    (p.recv r).thread = .joinable → (p.recv r).mExchange = e ∧ p.exchangeReply e = some reply
  /-- Only the command of the main thread has changed `exchangeReply`. -/
  current : ∀ c, p.main.command = some c → p.exchangeReply = c.prologue p.before
  /-- The text that a callback is about to send is the reply of its receiver. -/
  text : ∀ r m text, (p.recv r).pc = .callback m → m.content ≠ "Send me an invalid!" →
    p.callback r = .send text → ∃ e, p.startedBy r = some (.receiveMessagesAndReply e text)

theorem MainPc.command_of_read {pc pc' : MainPc} {token : List Char}
    (h : pc.read token = some pc') : pc'.command = none := by
  obtain ⟨-, rfl | rfl | rfl | ⟨_, rfl⟩ | ⟨_, rfl⟩⟩ := MainPc.read_cases h <;> rfl

@[simp] theorem MainPc.command_epilogue (c : Command) (todo : List Command) (res : Result) :
    (c.epilogue todo res).command = none := by
  unfold Command.epilogue
  split <;> rfl

namespace Configured

variable {parse : AddressParser} {p p' : Program} {l : ProgramLabel} {r : RecvId}

theorem init : Configured {} where
  live _ _ _ h := by cases h
  current _ h := by cases h
  text _ _ _ h := by cases h

/-- A callback finds the reply of its receiver, and `exchangeReply[exchange]` inserts nothing. -/
theorem index_eq (hc : Configured p) (hborn : Born p.messaging) {exchange : String}
    {pc : String → CallbackPc} (ha : p.act r = some (.index exchange pc)) :
    ∃ reply, p.exchangeReply.index exchange = (p.exchangeReply, reply) ∧
      p.startedBy r = some (.receiveMessagesAndReply exchange reply) := by
  obtain ⟨m, c, hpc, hstarted, hstep⟩ := Program.act_cases ha
  have hthread := (hborn.wf r).joinable (by rw [hpc]; rfl)
  generalize p.callback r = place at hstep
  cases hstep with
  | print | argument =>
    obtain ⟨hexchange, hreply⟩ := hc.live r _ _ hstarted hthread
    rw [hexchange]
    exact ⟨_, Replies.index_of_some hreply, hstarted⟩

/-- A step outside of the library keeps the replies of the receivers. -/
theorem exchangeReply_of_ne (hc : Configured p) (ho : Orderly p) (hs : Seated client p.messaging)
    (hborn : Born p.messaging) (h : ProgramStep parse p l p') (hl : ∀ b, l ≠ .library b)
    {e reply : String} (hstarted : p.startedBy r = some (.receiveMessagesAndReply e reply))
    (hthread : (p.recv r).thread = .joinable) : p'.exchangeReply e = some reply := by
  obtain ⟨hexchange, hreply⟩ := hc.live r e reply hstarted hthread
  cases h with
  | enter => exact Command.prologue_of_some hreply
  | erase hm =>
    have hne := ho.stopped hs hm hthread
    rw [hexchange] at hne
    rw [← hreply]
    exact Function.update_of_ne hne ..
  | index ha =>
    obtain ⟨text, hindex, -⟩ := hc.index_eq hborn ha
    rw [hindex]
    exact hreply
  | library => exact absurd rfl (hl _)
  | read | input | finish | call | returned | destroy | destructor | destroyed | goto | indexFault
  | qpidSendMessage | await | pgMessagePersist | pgMessagePersistFault => exact hreply

/-- The text that a callback is about to send. -/
theorem text_of_acted (hc : Configured p) (hborn : Born p.messaging)
    (h : ProgramStep parse p (.callback r) p') {m : Message} (hpc : (p.recv r).pc = .callback m)
    (hm : m.content ≠ "Send me an invalid!") {text : String} (htext : p'.callback r = .send text) :
    ∃ e, p.startedBy r = some (.receiveMessagesAndReply e text) := by
  cases h with
  | goto ha =>
    simp only [Program.goto_callback, if_true] at htext
    subst htext
    obtain ⟨c, -, hstep⟩ := Program.act_cases_of_callback hpc ha
    generalize p.callback r = place at hstep
    cases hstep with
    | invalid _ hcontent => exact absurd hcontent hm
  | index ha =>
    obtain ⟨reply, hindex, hstarted⟩ := hc.index_eq hborn ha
    obtain ⟨c, -, hstep⟩ := Program.act_cases_of_callback hpc ha
    simp only [Program.goto_callback, if_true, hindex] at htext
    generalize p.callback r = place at hstep
    cases hstep with
    | print => cases htext
    | argument =>
      cases htext
      exact ⟨_, hstarted⟩
  | qpidSendMessage => simp at htext
  | await =>
    simp only [Program.goto_callback, if_true] at htext
    split at htext <;> cases htext
  | pgMessagePersist ha =>
    simp only [Program.goto_callback, if_true] at htext
    subst htext
    obtain ⟨c, -, hstep⟩ := Program.act_cases_of_callback hpc ha
    generalize p.callback r = place at hstep
    cases hstep
  | indexFault | pgMessagePersistFault => exact hc.text r m text hpc hm htext

theorem live_step (hc : Configured p) (ho : Orderly p) (hs : Seated client p.messaging)
    (hborn : Born p.messaging) (hkeep : p.keepsReplies l = true) (h : ProgramStep parse p l p') :
    ∀ r e reply, p'.startedBy r = some (.receiveMessagesAndReply e reply) →
      (p'.recv r).thread = .joinable →
      (p'.recv r).mExchange = e ∧ p'.exchangeReply e = some reply := by
  intro r e reply hstarted hthread
  by_cases hl : ∀ b, l ≠ .library b
  · rw [h.startedBy_eq hl] at hstarted
    rw [h.recv_eq hl] at hthread ⊢
    exact ⟨(hc.live r e reply hstarted hthread).1,
      hc.exchangeReply_of_ne ho hs hborn h hl hstarted hthread⟩
  · push Not at hl
    obtain ⟨b, rfl⟩ := hl
    cases h with
    | @library _ q _ hb =>
      rw [Program.afterLibrary_startedBy] at hstarted
      rcases ho.joinable_cases hs hborn hb hthread with
        ⟨hold, hsame, hexchange⟩ | ⟨c, todo, e', hm, he, hcreates, hc', hexchange⟩
      · rw [hsame] at hstarted
        exact ⟨hexchange.trans (hc.live r e reply hstarted hold).1,
          (hc.live r e reply hstarted hold).2⟩
      · cases hc'.symm.trans hstarted
        cases he
        refine ⟨hexchange, ?_⟩
        simp only [Program.keepsReplies, hcreates] at hkeep
        rw [Program.afterLibrary_exchangeReply, hc.current _ (by rw [hm]; rfl)]
        exact Command.prologue_of_agrees hkeep

theorem current_step (hc : Configured p) (hborn : Born p.messaging)
    (h : ProgramStep parse p l p') :
    ∀ c, p'.main.command = some c → p'.exchangeReply = c.prologue p'.before := by
  intro c hcommand
  cases h with
  | read hr =>
    rw [MainPc.command_of_read hr] at hcommand
    cases hcommand
  | enter =>
    cases hcommand
    rfl
  | call hm =>
    cases hcommand
    exact hc.current c (by rw [hm]; rfl)
  | returned =>
    simp at hcommand
  | input | finish | erase | destroy | destructor | destroyed => cases hcommand
  | index ha =>
    obtain ⟨reply, hindex, -⟩ := hc.index_eq hborn ha
    rw [hindex]
    exact hc.current c hcommand
  | goto | indexFault | qpidSendMessage | await | pgMessagePersist | pgMessagePersistFault
  | library => exact hc.current c hcommand

theorem text_step (hc : Configured p) (hborn : Born p.messaging) (h : ProgramStep parse p l p') :
    ∀ r m text, (p'.recv r).pc = .callback m → m.content ≠ "Send me an invalid!" →
      p'.callback r = .send text →
      ∃ e, p'.startedBy r = some (.receiveMessagesAndReply e text) := by
  intro r m text hpc hm htext
  have hkept : (p.recv r).pc = .callback m → p'.startedBy r = p.startedBy r := by
    intro hold
    cases h with
    | library =>
      have hthread := (hborn.wf r).joinable (by rw [hold]; rfl)
      exact recordStarted_of_joinable hborn (by simp [hthread])
    | _ => rfl
  have hmove := h.worker_move hborn r
  cases hmove with
  | same _ hsame hcallback =>
    rw [hsame] at hpc
    rw [hkept hpc]
    exact hc.text r m text hpc hm (hcallback ▸ htext)
  | acted hsame =>
    rw [hsame] at hpc
    rw [hkept hpc]
    exact hc.text_of_acted hborn h hpc hm htext
  | fetched _ _ _ hlock =>
    rw [hlock] at hpc
    cases hpc
  | locked _ _ hcall =>
    rw [hcall] at hpc
    cases hpc
  | invoked _ _ _ hstart =>
    rw [hstart] at htext
    cases htext
  | free _ hfree =>
    rw [hpc] at hfree
    cases hfree

theorem step (hc : Configured p) (ho : Orderly p) (hs : Seated client p.messaging)
    (hborn : Born p.messaging) (hkeep : p.keepsReplies l = true) (h : ProgramStep parse p l p') :
    Configured p' where
  live := hc.live_step ho hs hborn hkeep h
  current := hc.current_step hborn h
  text := hc.text_step hborn h

end Configured

section Reachable

variable {parse : AddressParser} {p : Program}

theorem configured_of_reachable
    (h : (program parse).ReachableWhere (fun p l => p.keepsReplies l = true) {} p) :
    Configured p :=
  h.invariant_of
    (I := fun p => Orderly p ∧ Seated client p.messaging ∧ Born p.messaging)
    (fun _ hr => ⟨orderly_of_reachable hr, seated_of_reachable (solo_reachable hr),
      born_of_program hr⟩)
    Configured.init
    fun _ _ _ hi hc hkeep hst => hc.step hi.1 hi.2.1 hi.2.2 hkeep (program_step_cases hst).2

/-- The step after a failed command keeps the replies exactly if the command has stored none. -/
theorem Configured.exchangeReply_eq_iff (hc : Configured p) {c : Command} {todo : List Command}
    {st : QPIDStatus} {p' : Program} (hm : p.main = .wait c todo)
    (hres : c.result p.brokered.process = some (.status st)) (hst : st ≠ .qpidSuccess)
    (h : ProgramStep parse p .main p') :
    p'.exchangeReply = p.before ↔ p.keepsReplies .main = true := by
  have hsame : p'.exchangeReply = p.exchangeReply := by
    cases h with
    | enter hm' | erase hm' =>
      rw [hm] at hm'
      cases hm'
    | finish | call | returned | destroy | destructor | destroyed => rfl
  have hkeep : p.keepsReplies .main = c.finds p.before := by
    simp [Program.keepsReplies, hm, Command.failed, hres, hst]
  rw [hsame, hc.current c (by rw [hm]; rfl), hkeep]
  exact Command.prologue_eq_self_iff

/-- **Auto-reply uses the configured reply.**  Suppose that every receiver is started with the reply
that is stored, and that no failing start stores one.  Accesses to `exchangeReply` are taken as
atomic.

* What the callback sends to a reply address is the reply of the command that has started its
  receiver, unless the message asks for an invalid one.
* The receiver that is registered when a start has returned `QPID_SUCCESS` is the one that this
  very command has started.
* A command that has returned another status leaves the replies as they were. -/
theorem auto_reply_of_reachable
    (h : (program parse).ReachableWhere (fun p l => p.keepsReplies l = true) {} p) :
    (∀ r m text address, (p.recv r).pc = .callback m → m.content ≠ "Send me an invalid!" →
      p.act r = some (.qpidSendMessage text address) → address = m.replyTo.name ∧
        p.startedBy r = some (.receiveMessagesAndReply (p.recv r).mExchange text)) ∧
    (∀ c todo e, p.main = .wait c todo → c.starts = some e →
      c.result p.brokered.process = some (.status .qpidSuccess) →
      ∃ r, p.messaging.Registered client e r ∧ p.startedBy r = some c) ∧
    ∀ c todo st p', p.main = .wait c todo → c.result p.brokered.process = some (.status st) →
      st ≠ .qpidSuccess → (program parse).step p .main = some p' →
      (p'.exchangeReply = p.before ↔ p.keepsReplies .main = true) := by
  have hc := configured_of_reachable h
  refine ⟨fun r m text address hpc hm ha => ?_, fun c todo e hm he hres => ?_,
    fun c todo st p' hm hres hst hstep => ?_⟩
  · obtain ⟨c, hstarted, hstep⟩ := Program.act_cases_of_callback hpc ha
    have hthread := ((born_of_program h).wf r).joinable (by rw [hpc]; rfl)
    generalize hplace : p.callback r = place at hstep
    cases hstep with
    | send =>
      obtain ⟨e, he⟩ := hc.text r m text hpc hm hplace
      rw [(hc.live r e text he hthread).1]
      exact ⟨rfl, he⟩
  · exact (orderly_of_reachable h).started hm he hres
  · exact hc.exchangeReply_eq_iff hm hres hst (program_step_cases hstep).2

end Reachable

/-! ### Runs -/

theorem auto_reply_configured : ∃ p, (program plainName).run {} configuredLabels = some p ∧
    p.act 0 = some (.qpidSendMessage "reply" "answers") ∧
    p.startedBy 0 = some (.receiveMessagesAndReply "exchange" "reply") := by
  have hrun : ∃ p, (program plainName).run {} configuredLabels = some p ∧
      (p.recv 0).pc = .callback ⟨"request", ⟨"answers"⟩⟩ ∧ (p.recv 0).mExchange = "exchange" ∧
      p.act 0 = some (.qpidSendMessage "reply" "answers") := ⟨_, rfl, rfl, rfl, rfl⟩
  have hkeeps : (program plainName).AllSteps (fun p l => p.keepsReplies l = true) {}
      configuredLabels := by decide +kernel
  obtain ⟨p, hp, hpc, hexchange, ha⟩ := hrun
  have hreply := (auto_reply_of_reachable (Machine.reachableWhere_of_run hp hkeeps)).1 0 _ _ _ hpc
    (by decide) ha
  rw [hexchange] at hreply
  exact ⟨p, hp, ha, hreply.2⟩

/-- The stop of the receiver `r` returns `QPID_ERROR`, since `closeConnection` throws. -/
def failedStopLabels (r : RecvId) : List ProgramLabel :=
  handlerLabels (.receiveStop "exchange")
    (List.replicate 3 (.exec (.app client) .ok) ++ [.exec (.app client) .throw, .work r .test] ++
      List.replicate 4 (.exec (.app client) .ok)) ++ [.main, .main]

/-- A reply is stored, the receiver is stopped with `QPID_ERROR`, and another one is started. -/
def staleLabels : List ProgramLabel :=
  [.read ['0']] ++ successLabels (.receiveMessagesAndReply "exchange" "first") ++
    failedStopLabels 0 ++ successLabels (.receiveMessagesAndReply "exchange" "second") ++
    [requestLabel] ++ answerLabels 1 0

/-- A receiver that answers is started on an exchange that has a receiver. -/
def alreadyLabels : List ProgramLabel :=
  [.read ['0']] ++ successLabels (.receiveMessages "exchange") ++
    handlerLabels (.receiveMessagesAndReply "exchange" "reply") []

/-- **Auto-reply uses another reply than the configured one.**  After a stop that returned
`QPID_ERROR` a receiver started with the reply `second` answers with `first`; and a start that
returned `QPID_ALREADY` leaves its reply in `exchangeReply`. -/
theorem auto_reply_stale :
    (∃ p, (program plainName).run {} staleLabels = some p ∧
      (p.recv 1).pc = .callback ⟨"request", ⟨"answers"⟩⟩ ∧
      p.act 1 = some (.qpidSendMessage "first" "answers") ∧
      p.startedBy 1 = some (.receiveMessagesAndReply "exchange" "second")) ∧
    ∃ p p', (program plainName).run {} alreadyLabels = some p ∧
      p.main = .wait (.receiveMessagesAndReply "exchange" "reply") [] ∧
      (Command.receiveMessagesAndReply "exchange" "reply").result p.brokered.process =
        some (.status .qpidAlready) ∧
      (program plainName).step p .main = some p' ∧
      p.before "exchange" = none ∧ p'.exchangeReply "exchange" = some "reply" :=
  ⟨⟨_, rfl, rfl, rfl, rfl⟩, _, _, rfl, rfl, rfl, rfl, rfl, rfl⟩

end Comyno
