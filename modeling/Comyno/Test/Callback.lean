import Comyno.Test.Step

/-!
# The callbacks

A worker that has fetched a message has it in hand until its callback has ended, and the callback
runs for that message.  `CallbackStep` lists what the three callbacks do, `WorkerMove` says how a
worker and its callback move in one step of the program, and `SenderMove` how the send does that
the callback has called.

## Main results

* `Program.act_cases` : the list of `CallbackStep` is complete.
* `ProgramStep.worker_move`, `ProgramStep.sender_move` : the lists of `WorkerMove` and of
  `SenderMove` are complete.
-/

namespace Comyno

/-- The steps of the callbacks, by the command that has passed the callback. -/
inductive CallbackStep (message exchange replyAddress : String) :
    Command → CallbackPc → CallbackAct → Prop
  | plain {e : String} :
      CallbackStep message exchange replyAddress (.receiveMessages e) .start (.goto .done)
  -- `receiveAndReplyCallback`
  | unanswered {e reply : String} : replyAddress = "" →
      CallbackStep message exchange replyAddress (.receiveMessagesAndReply e reply) .start
        (.goto .done)
  | invalid {e reply : String} : replyAddress ≠ "" → message = "Send me an invalid!" →
      CallbackStep message exchange replyAddress (.receiveMessagesAndReply e reply) .start
        (.goto (.send invalidMessage))
  | reply {e reply : String} : replyAddress ≠ "" → message ≠ "Send me an invalid!" →
      CallbackStep message exchange replyAddress (.receiveMessagesAndReply e reply) .start
        (.goto .print)
  | print {e reply : String} :
      CallbackStep message exchange replyAddress (.receiveMessagesAndReply e reply) .print
        (.index exchange fun _ => .argument)
  | argument {e reply : String} :
      CallbackStep message exchange replyAddress (.receiveMessagesAndReply e reply) .argument
        (.index exchange .send)
  | send {e reply text : String} :
      CallbackStep message exchange replyAddress (.receiveMessagesAndReply e reply) (.send text)
        (.qpidSendMessage text replyAddress)
  | sending {e reply : String} :
      CallbackStep message exchange replyAddress (.receiveMessagesAndReply e reply) .sending .await
  -- `receiveAndPersistCallback`
  | toPersist {e : String} :
      CallbackStep message exchange replyAddress (.receiveMessagesAndPersist e) .start
        (.goto .persist)
  | persist {e : String} :
      CallbackStep message exchange replyAddress (.receiveMessagesAndPersist e) .persist
        (.pgMessagePersist .persisting)
  | persisting {e : String} :
      CallbackStep message exchange replyAddress (.receiveMessagesAndPersist e) .persisting
        (.pgMessagePersist .done)

theorem Command.callback_cases {c : Command} {message exchange replyAddress : String}
    {pc : CallbackPc} {a : CallbackAct} (h : c.callback message exchange replyAddress pc = some a) :
    CallbackStep message exchange replyAddress c pc a := by
  cases c with
  | send | receiveStop => cases h
  | receiveMessages e =>
    simp only [Command.callback, receiveCallback] at h
    split at h <;> cases h
    exact .plain
  | receiveMessagesAndReply e reply =>
    simp only [Command.callback, receiveAndReplyCallback] at h
    split at h
    case h_1 =>
      split_ifs at h with haddress hmessage <;> cases h
      · exact .invalid haddress hmessage
      · exact .reply haddress hmessage
      · exact .unanswered (not_not.1 haddress)
    all_goals cases h
    · exact .print
    · exact .argument
    · exact .send
    · exact .sending
  | receiveMessagesAndPersist e =>
    simp only [Command.callback, receiveAndPersistCallback] at h
    split at h <;> cases h
    · exact .toPersist
    · exact .persist
    · exact .persisting

/-- The message that a worker has in hand. -/
def WorkerPc.inHand : WorkerPc → Option Message
  | .lock m | .call m | .callback m => some m
  | .unborn | .test | .fetch | .unlock | .acknowledge | .handler | .handlerClose | .exited => none

section Step

variable {parse : AddressParser} {p p' : Program} {l : ProgramLabel} {r : RecvId}

/-- **The list of steps of the callbacks is complete.** -/
theorem Program.act_cases {a : CallbackAct} (h : p.act r = some a) :
    ∃ m c, (p.recv r).pc = .callback m ∧ p.startedBy r = some c ∧
      CallbackStep m.content (p.recv r).mExchange m.replyTo.name c (p.callback r) a := by
  unfold Program.act at h
  split at h
  · exact ⟨_, _, ‹_›, ‹_›, Command.callback_cases h⟩
  · cases h

/-- The step of a callback that runs for `m`. -/
theorem Program.act_cases_of_callback {a : CallbackAct} {m : Message}
    (hm : (p.recv r).pc = .callback m) (h : p.act r = some a) :
    ∃ c, p.startedBy r = some c ∧
      CallbackStep m.content (p.recv r).mExchange m.replyTo.name c (p.callback r) a := by
  obtain ⟨n, c, hn, hc, hstep⟩ := Program.act_cases h
  cases hm.symm.trans hn
  exact ⟨c, hc, hstep⟩

/-- The step delivers a message to `r`, or is one of the callback of `r`. -/
def ProgramLabel.about (r : RecvId) : ProgramLabel → Bool
  | .library (.fetch q _) | .callback q => q = r
  | .library (.arrive _) | .library (.step _) | .read _ | .input _ | .main => false

/-- What a step of the program does to the worker of `r` and its callback. -/
inductive WorkerMove (p p' : Program) (r : RecvId) : ProgramLabel → Prop
  | same {l : ProgramLabel} : l.about r = false → (p'.recv r).pc = (p.recv r).pc →
      p'.callback r = p.callback r → WorkerMove p p' r l
  /-- A step of the callback. -/
  | acted : (p'.recv r).pc = (p.recv r).pc → WorkerMove p p' r (.callback r)
  | fetched {d : ℕ} {m : Message} :
      p.brokered.broker.published[d]? = some ⟨(p.recv r).mExchange, m⟩ →
      (p.recv r).isOpen = true → (p.recv r).pc = .fetch → (p'.recv r).pc = .lock m →
      WorkerMove p p' r (.library (.fetch r d))
  | locked {l : ProgramLabel} {m : Message} : l.about r = false → (p.recv r).pc = .lock m →
      (p'.recv r).pc = .call m → WorkerMove p p' r l
  | invoked {l : ProgramLabel} {m : Message} : l.about r = false → (p.recv r).pc = .call m →
      (p'.recv r).pc = .callback m → p'.callback r = .start → WorkerMove p p' r l
  /-- The worker has nothing in hand.  Its callback has not ended within a send. -/
  | free {l : ProgramLabel} : l.about r = false → (p'.recv r).pc.inHand = none →
      ((p.recv r).pc.inCallback = true → p.brokered.process.idle (.worker r) = true) →
      WorkerMove p p' r l

/-- A call of an operation leaves the workers alone. -/
theorem Step.recv_of_call {s s' : State} {t : Thread} {c : Operation} (h : Step s (.call t c) s')
    (r : RecvId) : s'.recv r = s.recv r := by
  have hm := h.recv_move r
  generalize s'.recv r = R at hm
  cases hm with
  | same => rfl

theorem Program.enter_of_ne {b : BrokeredLabel} (h : b ≠ .step (.messaging (.work r .invoke))) :
    p.enter b r = p.callback r := by
  unfold Program.enter
  split
  · rename_i q
    have hne : r ≠ q := by
      rintro rfl
      exact h rfl
    simp [hne]
  · rfl

/-- A step of the worker. -/
theorem worker_move_of_work {a : WorkerAct} {b : Brokered} (hfetch : ∀ m, a ≠ .fetch m)
    (hidle : p.brokered.process.idle (.worker r) = true)
    (h : Step p.messaging (.work r a) b.process.messaging) :
    WorkerMove p (p.afterLibrary (.step (.messaging (.work r a))) b) r
      (.library (.step (.messaging (.work r a)))) := by
  have hw := h.work_step
  generalize hR : b.process.messaging.recv r = R at hw
  have hpc := congrArg Receiver.pc hR
  cases hw with
  | fetch => exact absurd rfl (hfetch _)
  | lock hold => exact .locked rfl hold hpc
  | invoke hold => exact .invoked rfl hold hpc (by simp [Program.enter])
  | testActive | testInactive | fetchThrow | callThrow | callbackReturn | callbackThrow | unlock
  | acknowledge | acknowledgeApplied | acknowledgeThrow | isOpen | isNotOpen | isOpenThrow | close
  | closeThrow => exact .free rfl (congrArg WorkerPc.inHand hpc) fun _ => hidle

/-- A step of the library without sends. -/
theorem worker_move_of_step {l : Label} {b : Brokered} (hfetch : ∀ m, l ≠ .work r (.fetch m))
    (hidle : ∀ t ∈ l.actor, p.brokered.process.idle t = true)
    (hborn : Born p.messaging) (h : Step p.messaging l b.process.messaging) :
    WorkerMove p (p.afterLibrary (.step (.messaging l)) b) r
      (.library (.step (.messaging l))) := by
  by_cases hl : ∃ a, l = .work r a
  · obtain ⟨a, rfl⟩ := hl
    exact worker_move_of_work (fun m hm => hfetch m (by rw [hm])) (hidle _ rfl) h
  · rcases h.pc_cases hborn r with hpc | ⟨a, _, rfl, -⟩ | ⟨hold, hpc⟩
    · refine .same rfl hpc (Program.enter_of_ne ?_)
      rintro ⟨⟩
      exact hl ⟨_, rfl⟩
    · exact absurd ⟨a, rfl⟩ hl
    · refine .free rfl (congrArg WorkerPc.inHand hpc) fun hin => ?_
      rw [show (p.recv r).pc = .unborn from hold] at hin
      cases hin

/-- A step of the library. -/
theorem worker_move_of_library {l : BrokeredLabel} {b : Brokered} (hborn : Born p.messaging)
    (hb : (brokered parse).step p.brokered l = some b) :
    WorkerMove p (p.afterLibrary l b) r (.library l) := by
  cases brokered_step_cases hb with
  | arrive => exact .same rfl rfl rfl
  | @fetch q d m s hd hopen _ _ hst =>
    have hst : Step p.messaging _ s := (Comyno.step_cases hst).2
    by_cases hrq : r = q
    · subst hrq
      have hw := hst.work_step
      generalize hR : s.recv r = R at hw
      cases hw with
      | fetch hpc => exact .fetched hd hopen hpc (congrArg Receiver.pc hR)
    · exact .same (by simpa [ProgramLabel.about] using Ne.symm hrq)
        (congrArg Receiver.pc (hst.recv_of_work_ne hrq)) rfl
  | @step l q hallowed hq =>
    cases process_step_cases hq with
    | send | exec => exact .same rfl rfl rfl
    | @messaging l s hidle hst =>
      refine worker_move_of_step ?_ hidle hborn (Comyno.step_cases hst).2
      rintro m rfl
      cases hallowed

/-- A call of an operation by the program. -/
theorem recv_of_label {b : Brokered} {l : ProcessLabel}
    (hl : ∀ l', l = .messaging l' → ∃ t c, l' = .call t c)
    (hb : (brokered parse).step p.brokered (.step l) = some b) (r : RecvId) :
    b.process.messaging.recv r = p.recv r := by
  rcases (brokered_maps_messaging parse).step_cases hb with ⟨-, heq⟩ | ⟨l', hl', hst⟩
  · exact congrFun (congrArg State.recv heq) r
  · cases l with
    | send | exec => cases hl'
    | messaging l =>
      cases hl'
      obtain ⟨t, c, rfl⟩ := hl _ rfl
      exact (Comyno.step_cases hst).2.recv_of_call r

/-- A step outside of the library leaves the receivers alone. -/
theorem ProgramStep.recv_eq (h : ProgramStep parse p l p') (hl : ∀ b, l ≠ .library b)
    (r : RecvId) : p'.recv r = p.recv r := by
  cases h with
  | @call c todo b hm hb =>
    refine recv_of_label ?_ hb r
    cases c <;> simp [Command.label]
  | destructor _ hb => exact recv_of_label (by simp) hb r
  | qpidSendMessage _ hb => exact recv_of_label (by simp) hb r
  | library => exact absurd rfl (hl _)
  | read | input | finish | enter | returned | erase | destroy | destroyed | goto | index
  | indexFault | await | pgMessagePersist | pgMessagePersistFault => rfl

theorem ProgramStep.startedBy_eq (h : ProgramStep parse p l p') (hl : ∀ b, l ≠ .library b) :
    p'.startedBy = p.startedBy := by
  cases h with
  | library => exact absurd rfl (hl _)
  | _ => rfl

/-- **The list of moves of a worker is complete.** -/
theorem ProgramStep.worker_move (h : ProgramStep parse p l p') (hborn : Born p.messaging)
    (r : RecvId) : WorkerMove p p' r l := by
  have hrecv : (∀ b, l ≠ .library b) → (p'.recv r).pc = (p.recv r).pc := fun hl =>
    congrArg Receiver.pc (h.recv_eq hl r)
  cases h with
  | library _ hb => exact worker_move_of_library hborn hb
  | read | input | finish | enter | call | returned | erase | destroy | destructor | destroyed =>
    exact .same rfl (hrecv (by simp)) rfl
  | @goto q | @index q | @indexFault q | @qpidSendMessage q | @await q | @pgMessagePersist q
  | @pgMessagePersistFault q =>
    by_cases hrq : r = q
    · subst hrq
      exact .acted (hrecv (by simp))
    · exact .same (by simpa [ProgramLabel.about] using Ne.symm hrq) (hrecv (by simp))
        (by simp [hrq])

/-- A message in hand was there before, or was fetched by the step. -/
theorem WorkerMove.inHand_cases (h : WorkerMove p p' r l) {m : Message}
    (hm : (p'.recv r).pc.inHand = some m) :
    (p.recv r).pc.inHand = some m ∧ (l.about r = false ∨ l = .callback r) ∨
      ∃ d a, l = .library (.fetch r d) ∧ p.brokered.broker.published[d]? = some a ∧
        a.message = m ∧ (p'.recv r).pc = .lock m := by
  cases h with
  | same hl hpc =>
    rw [hpc] at hm
    exact Or.inl ⟨hm, Or.inl hl⟩
  | acted hpc =>
    rw [hpc] at hm
    exact Or.inl ⟨hm, Or.inr rfl⟩
  | fetched hd _ _ hpc =>
    rw [hpc] at hm
    cases hm
    exact Or.inr ⟨_, _, rfl, hd, rfl, hpc⟩
  | locked hl hold hpc | invoked hl hold hpc =>
    rw [hpc] at hm
    rw [hold]
    exact Or.inl ⟨hm, Or.inl hl⟩
  | free _ hfree =>
    rw [hfree] at hm
    cases hm

/-- Where a callback is that calls `qpidSendMessage`. -/
theorem Program.place_of_send {text exchange : String}
    (ha : p.act r = some (.qpidSendMessage text exchange)) :
    ∃ m, (p.recv r).pc = .callback m ∧ p.callback r = .send text := by
  obtain ⟨m, c, hpc, -, hstep⟩ := Program.act_cases ha
  generalize hplace : p.callback r = place at hstep
  cases hstep with
  | send => exact ⟨m, hpc, rfl⟩

/-- Where it is then. -/
theorem ProgramStep.callback_of_send {text exchange : String}
    (h : ProgramStep parse p (.callback r) p')
    (ha : p.act r = some (.qpidSendMessage text exchange)) : p'.callback r = .sending := by
  cases h with
  | qpidSendMessage => simp
  | goto ha' | index ha' | await ha' | pgMessagePersist ha' | indexFault ha'
  | pgMessagePersistFault ha' =>
    rw [ha] at ha'
    cases ha'

/-! ### The send of a callback -/

/-- The send that the worker of `r` executes. -/
abbrev Program.sender (p : Program) (r : RecvId) : SendFrame :=
  p.brokered.process.sender (.worker r)

/-- The calls of `senderSend` by the worker of `r`. -/
abbrev Program.sent (p : Program) (r : RecvId) : List SendCall :=
  p.brokered.process.sent (.worker r)

/-- The messages that were published. -/
abbrev Program.published (p : Program) : List Delivery := p.brokered.broker.published

/-- The step executes the next program point of the send of the worker of `r`. -/
def ProgramLabel.sends (r : RecvId) : ProgramLabel → Bool
  | .library (.step (.exec t _)) => t = .worker r
  | .library (.step (.messaging _)) | .library (.step (.send _ _)) | .library (.arrive _)
  | .library (.fetch _ _) | .callback _ | .read _ | .input _ | .main => false

/-- What a step of the program does to the send of the worker of `r`. -/
inductive SenderMove (parse : AddressParser) (p p' : Program) (r : RecvId) : ProgramLabel → Prop
  | same {l : ProgramLabel} : l.sends r = false → p'.sender r = p.sender r →
      p'.sent r = p.sent r → SenderMove parse p p' r l
  /-- The callback calls `qpidSendMessage`. -/
  | send {text exchange : String} : p.act r = some (.qpidSendMessage text exchange) →
      p'.sender r = .sending .construct ⟨exchange, text, ""⟩ → p'.sent r = p.sent r →
      SenderMove parse p p' r (.callback r)
  | exec {x : Outcome} {pc : SendPc} {args : SendArgs} {f : SendFrame} :
      p.sender r = .sending pc args → SendStep parse args pc x f → p'.sender r = f →
      p'.sent r = p.sent r ++ args.calls x pc →
      (∀ payload, pc = .senderSend payload → x = .ok →
        p'.published[p.published.length]? = some ⟨args.exchange, payload⟩) →
      SenderMove parse p p' r (.library (.step (.exec (.worker r) x)))

/-- A step of the process that the program takes itself, other than the send of a callback. -/
theorem sender_of_label {b : Brokered} {l : ProcessLabel} (hexec : ∀ t x, l ≠ .exec t x)
    (hsend : ∀ c, l ≠ .send (.worker r) c)
    (hb : (brokered parse).step p.brokered (.step l) = some b) :
    b.process.sender (.worker r) = p.sender r ∧ b.process.sent (.worker r) = p.sent r := by
  cases brokered_step_cases hb with
  | step _ hq =>
    cases process_step_cases hq with
    | messaging => exact ⟨rfl, rfl⟩
    | @send t c =>
      have hne : Thread.worker r ≠ t := by
        rintro rfl
        exact hsend c rfl
      simp [hne]
    | exec => exact absurd rfl (hexec _ _)

/-- A step of the library. -/
theorem sender_move_of_library {l : BrokeredLabel} {b : Brokered} (hallowed : p.allows l = true)
    (hb : (brokered parse).step p.brokered l = some b) :
    SenderMove parse p (p.afterLibrary l b) r (.library l) := by
  cases brokered_step_cases hb with
  | arrive | fetch => exact .same rfl rfl rfl
  | @step l q _ hq =>
    cases process_step_cases hq with
    | messaging => exact .same rfl rfl rfl
    | send => cases hallowed
    | @exec t x pc args f _ hf hstep =>
      by_cases ht : t = .worker r
      · subst ht
        refine .exec hf hstep (by simp [Program.sender]) (by simp [Program.sent]) ?_
        rintro payload rfl rfl
        have hserve : p.brokered.serve (.exec (.worker r) .ok) =
            p.brokered.broker.publish ⟨args.exchange, payload⟩ := by
          simp [Brokered.serve, Brokered.sends, hf]
        show (p.brokered.serve _).published[_]? = _
        rw [hserve]
        exact p.brokered.broker.getElem?_publish_length _
      · exact .same (by simpa [ProgramLabel.sends] using ht)
          (by simp [Program.sender, Ne.symm ht]) (by simp [Program.sent, Ne.symm ht])

/-- **The list of moves of the send of a callback is complete.** -/
theorem ProgramStep.sender_move (h : ProgramStep parse p l p') (r : RecvId) :
    SenderMove parse p p' r l := by
  cases h with
  | @call c todo b hm hb =>
    obtain ⟨hsender, hsent⟩ := sender_of_label (r := r) (by cases c <;> simp [Command.label])
      (by cases c <;> simp [Command.label]) hb
    exact .same rfl hsender hsent
  | destructor hm hb =>
    obtain ⟨hsender, hsent⟩ := sender_of_label (r := r) (by simp) (by simp) hb
    exact .same rfl hsender hsent
  | @qpidSendMessage q text exchange b ha hb =>
    by_cases hrq : r = q
    · subst hrq
      cases brokered_step_cases hb with
      | step _ hq =>
        cases process_step_cases hq with
        | send => exact .send ha (by simp [Program.sender, SendOperation.args]) rfl
    · obtain ⟨hsender, hsent⟩ := sender_of_label (r := r) (by simp) (by simp [Ne.symm hrq]) hb
      exact .same rfl hsender hsent
  | library hallowed hb => exact sender_move_of_library hallowed hb
  | read | input | finish | enter | returned | erase | destroy | destroyed | goto | index
  | indexFault | await | pgMessagePersist | pgMessagePersistFault => exact .same rfl rfl rfl

/-- A published message stays what it is. -/
theorem published_of_step (h : (program parse).step p l = some p') {d : ℕ} {a : Delivery}
    (hd : p.published[d]? = some a) : p'.published[d]? = some a := by
  rcases (program_maps parse).step_or_eq h with heq | ⟨b, -, hb⟩
  · rw [Program.published, heq]
    exact hd
  · exact (brokered_step_cases hb).published hd

end Step

end Comyno
