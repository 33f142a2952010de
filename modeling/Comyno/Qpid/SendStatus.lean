import Comyno.Qpid.Sender

/-!
# The status of a send

`sendMessage` calls `senderSend` in the middle of its try block and `closeConnection` at the end of
it.  An exception before or in `senderSend` means that the broker did not take the message; an
exception of the close that follows means nothing of the kind, but the catch block answers both
with `QPID_ERROR`.

`SendTrace` relates the calls of `senderSend` a send has made to the point it has come to, with a
flag for the sends that fail although the broker has the message.

## Main results

* `senderSend_exact` : a send calls `senderSend` at most once, with its own content and reply
  address, and its status says whether that call returned exactly when the close after the call
  does not throw.
* `send_misreported` : a caller that repeats a send after `QPID_ERROR` may send the message twice.
-/

namespace Comyno

variable {parse : AddressParser}

/-- The call passes the message of the send, with its reply address. -/
def SendArgs.Hands (parse : AddressParser) (args : SendArgs) (call : SendCall) : Prop :=
  call.exchange = args.exchange ∧ call.payload.content = args.message ∧
    parse args.replyAddress = some call.payload.replyTo

/-- The send is at a point before `senderSend` has returned, with the payload it is about to
pass. -/
def SendArgs.Trying (parse : AddressParser) (args : SendArgs) : SendPc → Prop
  | .construct | .openConnection | .createSession | .createSender | .address => True
  | .senderSend payload => ∀ x, args.Hands parse ⟨args.exchange, payload, x⟩
  | .closeConnection | .handler => False

/-- The send has failed, or is about to. -/
def SendFrame.Failing (args : SendArgs) (f : SendFrame) : Prop :=
  f = .sending .handler args ∨ f = .idle (some (.status .qpidError)) ∨ f = .idle (some .threw)

/-- The calls of `senderSend` a send has made when it has come to the given point.  The flag is
set once it has failed after the broker took the message. -/
inductive SendTrace (parse : AddressParser) (args : SendArgs) :
    Bool → List SendCall → SendFrame → Prop
  | trying {pc : SendPc} : args.Trying parse pc →
      SendTrace parse args false [] (.sending pc args)
  | closing {call : SendCall} : args.Hands parse call → call.outcome = .ok →
      SendTrace parse args false [call] (.sending .closeConnection args)
  | sent {call : SendCall} : args.Hands parse call → call.outcome = .ok →
      SendTrace parse args false [call] (.idle (some (.status .qpidSuccess)))
  | notTried {f : SendFrame} : f.Failing args → SendTrace parse args false [] f
  | notSent {call : SendCall} {f : SendFrame} : args.Hands parse call → call.outcome = .throw →
      f.Failing args → SendTrace parse args false [call] f
  | misreported {call : SendCall} {f : SendFrame} : args.Hands parse call → call.outcome = .ok →
      f.Failing args → SendTrace parse args true [call] f

/-- The close after `senderSend` throws. -/
def SendPc.closeThrows (pc : SendPc) (x : Outcome) : Bool :=
  pc = .closeConnection && x = .throw

namespace SendTrace

variable {args : SendArgs} {b : Bool} {calls : List SendCall} {f : SendFrame}

theorem length_le (h : SendTrace parse args b calls f) : calls.length ≤ 1 := by
  cases h <;> simp

theorem hands (h : SendTrace parse args b calls f) : ∀ call ∈ calls, args.Hands parse call := by
  cases h <;> simp_all

/-- An ended send says whether the broker took its message, unless the flag is set. -/
theorem status_iff {res : Result} (h : SendTrace parse args b calls (.idle (some res))) :
    (res = .status .qpidSuccess ↔ ∃ call ∈ calls, call.outcome = .ok) ↔ b = false := by
  cases h <;> simp_all [SendFrame.Failing] <;> grind

/-- A failing send goes on to fail. -/
theorem failing_step {pc : SendPc} {x : Outcome} {f : SendFrame}
    (hf : (SendFrame.sending pc args).Failing args) (h : SendStep parse args pc x f) :
    f.Failing args ∧ args.calls x pc = [] ∧ pc.closeThrows x = false := by
  obtain rfl : pc = .handler := by simpa [SendFrame.Failing] using hf
  cases h with
  | throw hpc => cases hpc
  | handler | handlerThrow => simp [SendFrame.Failing, SendArgs.calls, SendPc.closeThrows]

/-- **The trace of one more step.** -/
theorem step {pc : SendPc} {x : Outcome} (hs : SendTrace parse args b calls (.sending pc args))
    (h : SendStep parse args pc x f) :
    SendTrace parse args (b || pc.closeThrows x) (calls ++ args.calls x pc) f := by
  cases hs with
  | trying htry =>
    cases h with
    | senderSend => exact .closing (htry .ok) rfl
    | address hr => exact .trying fun _ => ⟨rfl, rfl, hr⟩
    | construct | openConnection | createSession | createSender => exact .trying trivial
    | constructThrow => exact .notTried (Or.inr (Or.inr rfl))
    | throw =>
      cases pc with
      | senderSend payload => exact .notSent (htry .throw) rfl (Or.inl rfl)
      | closeConnection | handler => exact htry.elim
      | _ => exact .notTried (Or.inl rfl)
    | closeConnection | handler | handlerThrow => exact htry.elim
  | closing hc hok =>
    cases h with
    | closeConnection => exact .sent hc hok
    | throw => exact .misreported hc hok (Or.inl rfl)
  | notTried hf =>
    obtain ⟨hf', hcalls, hclose⟩ := failing_step hf h
    rw [hcalls, hclose]
    exact .notTried hf'
  | notSent hc hthrow hf =>
    obtain ⟨hf', hcalls, hclose⟩ := failing_step hf h
    rw [hcalls, hclose]
    exact .notSent hc hthrow hf'
  | misreported hc hok hf =>
    obtain ⟨hf', hcalls, hclose⟩ := failing_step hf h
    rw [hcalls, hclose]
    exact .misreported hc hok hf'

end SendTrace

/-- The step is not a throw of the close that follows `senderSend`, by `t`. -/
def ClosesAfterSend (t : Thread) (p : Process) (l : ProcessLabel) : Prop :=
  l = .exec t .throw → ∀ args, p.sender t ≠ .sending .closeConnection args

/-- What `t` has called since `before`, in its present send. -/
def Process.Traces (parse : AddressParser) (p : Process) (t : Thread) (args : SendArgs)
    (before : List SendCall) (b : Bool) : Prop :=
  ∃ calls, p.sent t = before ++ calls ∧ SendTrace parse args b calls (p.sender t)

section Step

variable {p p' : Process} {l : ProcessLabel} {t : Thread} {args : SendArgs}
  {before : List SendCall} {b : Bool}

/-- Only `t` itself continues its send. -/
theorem ProcessStep.sender_of_ne (h : ProcessStep parse p l p') (hcall : ∀ c, l ≠ .send t c)
    (hexec : ∀ x, l ≠ .exec t x) : p'.sender t = p.sender t ∧ p'.sent t = p.sent t := by
  cases h with
  | messaging => exact ⟨rfl, rfl⟩
  | @send u c =>
    have hne : t ≠ u := fun e => hcall c (by rw [e])
    simp [hne]
  | @exec u x pc args f =>
    have hne : t ≠ u := fun e => hexec x (by rw [e])
    simp [hne]

theorem Process.Traces.step (hs : p.Traces parse t args before b) (hcall : ∀ c, l ≠ .send t c)
    (h : ProcessStep parse p l p') :
    (ClosesAfterSend t p l → p'.Traces parse t args before b) ∧
      (¬ ClosesAfterSend t p l → p'.Traces parse t args before true) := by
  by_cases hexec : ∃ x, l = .exec t x
  · obtain ⟨x, rfl⟩ := hexec
    obtain ⟨calls, hsent, htrace⟩ := hs
    cases h with
    | @exec _ _ pc args' f _ hf hstep =>
      obtain rfl : args' = args := by
        rw [hf] at htrace
        cases htrace <;> simp_all [SendFrame.Failing]
      rw [hf] at htrace
      have hnew := htrace.step hstep
      have hclose : ClosesAfterSend t p (.exec t x) ↔ pc.closeThrows x = false := by
        cases x <;> simp [ClosesAfterSend, SendPc.closeThrows, hf]
      have hsent' : ((p.record t (args'.calls x pc)).goto t f).sent t =
          before ++ (calls ++ args'.calls x pc) := by
        simp [hsent]
      have hnew' : SendTrace parse args' (b || pc.closeThrows x) (calls ++ args'.calls x pc)
          (((p.record t (args'.calls x pc)).goto t f).sender t) := by
        simpa using hnew
      constructor
      · intro hc
        rw [hclose.1 hc, Bool.or_false] at hnew'
        exact ⟨_, hsent', hnew'⟩
      · intro hc
        have : pc.closeThrows x = true := eq_true_of_ne_false fun hf => hc (hclose.2 hf)
        rw [this, Bool.or_true] at hnew'
        exact ⟨_, hsent', hnew'⟩
  · push Not at hexec
    obtain ⟨hsender, hsent⟩ := h.sender_of_ne hcall hexec
    refine ⟨fun _ => ?_, fun hc => absurd (fun hl => absurd hl (hexec _)) hc⟩
    obtain ⟨calls, hcalls, htrace⟩ := hs
    exact ⟨calls, by rw [hsent, hcalls], by rw [hsender]; exact htrace⟩

end Step

/-- The flag tells whether the close after `senderSend` has thrown in a send. -/
theorem traces_of_run {p p' : Process} {t : Thread} {c : SendOperation} {ls : List ProcessLabel}
    (hrun : (process parse).run p (.send t c :: ls) = some p') (hls : ∀ d, .send t d ∉ ls) :
    (process parse).AllSteps (ClosesAfterSend t) p (.send t c :: ls) ∧
        p'.Traces parse t c.args (p.sent t) false ∨
      ¬ (process parse).AllSteps (ClosesAfterSend t) p (.send t c :: ls) ∧
        p'.Traces parse t c.args (p.sent t) true := by
  obtain ⟨p₁, hst, hrun'⟩ := Option.bind_eq_some_iff.1 hrun
  have hstart : p₁.Traces parse t c.args (p.sent t) false := by
    cases process_step_cases hst with
    | send =>
      have htrace : SendTrace parse c.args false [] (.sending .construct c.args) := .trying trivial
      exact ⟨[], by simp, by simpa using htrace⟩
  have hall : (process parse).AllSteps (ClosesAfterSend t) p (.send t c :: ls) ↔
      (process parse).AllSteps (ClosesAfterSend t) p₁ ls := by
    rw [Conc.Machine.allSteps_cons_iff hst]
    exact and_iff_right fun hl => by cases hl
  rw [hall]
  exact Conc.Machine.flag_of_run (I := fun b p' => p'.Traces parse t c.args (p.sent t) b)
    (D := fun _ l => ∀ d, l ≠ .send t d) (C := ClosesAfterSend t)
    (fun _ _ _ _ hs hd hc hst => (hs.step hd (process_step_cases hst)).1 hc)
    (fun _ _ _ _ hs hd hc hst => (hs.step hd (process_step_cases hst)).2 hc)
    hstart hrun' (Conc.Machine.allSteps_of_labels fun l hl _ d hd => hls d (hd ▸ hl))

/-- A send that returns `QPID_SUCCESS` has called `senderSend` once, and the call returned. -/
theorem sent_of_success {p p' : Process} {t : Thread} {c : SendOperation} {ls : List ProcessLabel}
    (hrun : (process parse).run p (.send t c :: ls) = some p') (hls : ∀ d, .send t d ∉ ls)
    (hret : p'.sender t = .idle (some (.status .qpidSuccess))) :
    ∃ call, p'.sent t = p.sent t ++ [call] ∧ c.args.Hands parse call ∧ call.outcome = .ok := by
  have htrace : ∃ b, p'.Traces parse t c.args (p.sent t) b := by
    rcases traces_of_run hrun hls with ⟨-, h⟩ | ⟨-, h⟩ <;> exact ⟨_, h⟩
  obtain ⟨b, calls, hsent, htrace⟩ := htrace
  rw [hret] at htrace
  cases htrace with
  | sent hc hok => exact ⟨_, hsent, hc, hok⟩
  | notTried hf | notSent _ _ hf | misreported _ _ hf => simp [SendFrame.Failing] at hf

/-- **The status of a send.**  Up to any point of a send, `senderSend` was called at most once, and
with the content and the reply address of the send.  When the send has ended, `QPID_SUCCESS` and
the normal end of that call coincide exactly if the close after the call did not throw. -/
theorem senderSend_exact {p p' : Process} {t : Thread} {c : SendOperation}
    {ls : List ProcessLabel} (hrun : (process parse).run p (.send t c :: ls) = some p')
    (hls : ∀ d, .send t d ∉ ls) :
    ∃ calls, p'.sent t = p.sent t ++ calls ∧ calls.length ≤ 1 ∧
      (∀ call ∈ calls, c.args.Hands parse call) ∧
      ∀ res, p'.sender t = .idle (some res) →
        ((res = .status .qpidSuccess ↔ ∃ call ∈ calls, call.outcome = .ok) ↔
          (process parse).AllSteps (ClosesAfterSend t) p (.send t c :: ls)) := by
  rcases traces_of_run hrun hls with ⟨hgood, calls, hsent, htrace⟩ | ⟨hbad, calls, hsent, htrace⟩
  · refine ⟨calls, hsent, htrace.length_le, htrace.hands, fun res hres => ?_⟩
    rw [hres] at htrace
    exact iff_of_true (htrace.status_iff.2 rfl) hgood
  · refine ⟨calls, hsent, htrace.length_le, htrace.hands, fun res hres => ?_⟩
    rw [hres] at htrace
    exact iff_of_false (fun h => by simpa using htrace.status_iff.1 h) hbad

/-- A send that succeeds. -/
theorem senderSend_exact_success : ∃ p', (process plainName).run Process.init
      (sendLabels (.app 0) (.qpidSendMessage "message" "exchange" "reply")) = some p' ∧
    ∃ calls, p'.sent (.app 0) = [] ++ calls ∧ calls.length ≤ 1 ∧
      (∀ call ∈ calls, SendArgs.Hands plainName ⟨"exchange", "message", "reply"⟩ call) ∧
      ∃ call ∈ calls, call.outcome = .ok := by
  have hrun : ∃ p', (process plainName).run Process.init
      (sendLabels (.app 0) (.qpidSendMessage "message" "exchange" "reply")) = some p' ∧
        p'.sender (.app 0) = .idle (some (.status .qpidSuccess)) := ⟨_, rfl, rfl⟩
  obtain ⟨p', hp', hret⟩ := hrun
  obtain ⟨calls, hsent, hlen, hhands, hstatus⟩ := senderSend_exact hp' (by simp)
  have hcloses : (process plainName).AllSteps (ClosesAfterSend (.app 0)) Process.init
      (sendLabels (.app 0) (.qpidSendMessage "message" "exchange" "reply")) :=
    Conc.Machine.allSteps_of_labels (by simp [sendLabels, ClosesAfterSend])
  exact ⟨p', hp', calls, hsent, hlen, hhands, ((hstatus _ hret).2 hcloses).1 rfl⟩

/-- The steps of a send by `t` whose last close throws once. -/
def closeThrowLabels (t : Thread) (c : SendOperation) : List ProcessLabel :=
  .send t c :: (List.replicate 6 (.exec t .ok) ++ [.exec t .throw, .exec t .ok])

/-- Such a send reports an error although the broker has the message, and a caller that repeats it
sends the message twice. -/
theorem send_misreported :
    (¬ ∀ p p' t c ls res, (process plainName).run p (.send t c :: ls) = some p' →
        (∀ d, .send t d ∉ ls) → p'.sender t = .idle (some res) →
        ∀ calls, p'.sent t = p.sent t ++ calls →
          (res = .status .qpidSuccess ↔ ∃ call ∈ calls, call.outcome = .ok)) ∧
      ∃ p p', (process plainName).run Process.init
          (closeThrowLabels (.app 0) (.qpidSendMessage "message" "exchange" "reply")) = some p ∧
        p.sender (.app 0) = .idle (some (.status .qpidError)) ∧
        (process plainName).run p
          (sendLabels (.app 0) (.qpidSendMessage "message" "exchange" "reply")) = some p' ∧
        p'.sent (.app 0) = List.replicate 2 ⟨"exchange", ⟨"message", ⟨"reply"⟩⟩, .ok⟩ := by
  have hrun : ∃ p p', (process plainName).run Process.init
        (closeThrowLabels (.app 0) (.qpidSendMessage "message" "exchange" "reply")) = some p ∧
      p.sender (.app 0) = .idle (some (.status .qpidError)) ∧
      (process plainName).run p
        (sendLabels (.app 0) (.qpidSendMessage "message" "exchange" "reply")) = some p' ∧
      p'.sent (.app 0) = List.replicate 2 ⟨"exchange", ⟨"message", ⟨"reply"⟩⟩, .ok⟩ :=
    ⟨_, _, rfl, rfl, rfl, rfl⟩
  refine ⟨fun h => ?_, hrun⟩
  have hsent : ∃ p, (process plainName).run Process.init
        (closeThrowLabels (.app 0) (.qpidSendMessage "message" "exchange" "reply")) = some p ∧
      p.sender (.app 0) = .idle (some (.status .qpidError)) ∧
      p.sent (.app 0) = [⟨"exchange", ⟨"message", ⟨"reply"⟩⟩, .ok⟩] := ⟨_, rfl, rfl, rfl⟩
  obtain ⟨p, hp, hret, hcalls⟩ := hsent
  have hiff := h Process.init p (.app 0) _ _ _ hp (by simp) hret _ hcalls
  exact absurd (hiff.2 ⟨_, List.mem_singleton_self _, rfl⟩) (by simp)

end Comyno
