import Comyno.Conc.Refine
import Comyno.Qpid.Ownership
import Mathlib.Data.Finset.Basic

/-!
# The registry as a set of exchanges

To its caller a `QPIDMessaging` object is a set of exchanges that are being received:
`qpidReceiveMessages` adds one, `qpidReceiveStop` removes one, and their statuses say what was in
the set and whether the connector failed.  `exchanges` is this set as a machine; its labels are
calls together with their answers, and it has a step only for the answers of the contract.

`journal` observes a run of the library and writes down the calls of one application thread, each
when its answer is settled: the operation may still have to destroy a receiver, but what it returns
is fixed, and the registry has changed if it is to change.

## Main definitions

* `Answer`, `exchanges` : the abstract set.
* `journal` : the observer.
* `Serial` : the invariant that relates the two; every registered receiver is registered under its
  own exchange and has `mReceivingActive` set until the stop of that exchange clears it.

`Comyno.Qpid.Refinement` proves that every run keeps it.
-/

namespace Comyno

open Conc

/-! ### The abstract set -/

/-- A call that was answered. -/
structure Answer where
  call : Operation
  /-- None of the calls of the connector threw. -/
  ok : Bool
  result : Result
  deriving DecidableEq, Repr

/-- The set of exchanges after the call, `none` if the contract has another answer. -/
def Answer.apply (S : Finset String) : Answer → Option (Finset String)
  | ⟨.qpidReceiveMessages _ e callback, ok, res⟩ =>
    if callback = false then if res = .status .qpidError then some S else none
    else if e ∈ S then if res = .status .qpidAlready then some S else none
    else if ok then if res = .status .qpidSuccess then some (insert e S) else none
    else if res = .status .qpidError ∨ res = .threw then some S else none
  | ⟨.qpidReceiveStop _ e, ok, res⟩ =>
    if e ∉ S then if res = .status .qpidInvalidParam then some S else none
    else if res = .status (if ok then .qpidSuccess else .qpidError) then some (S.erase e) else none
  | ⟨.destructor _, _, _⟩ => none

/-- **The set of exchanges as a machine.** -/
def exchanges : Machine (Finset String) Answer := ⟨Answer.apply⟩

/-! ### The journal of an application thread -/

/-- The calls of a thread. -/
structure Journal where
  /-- The call that is not answered yet, and whether no call of the connector has thrown. -/
  pending : Option (Operation × Bool) := none
  /-- The answered calls, oldest first. -/
  answered : List Answer := []

/-- What an operation returns, once it is settled. -/
def Frame.answer : Frame → Option Result
  | .idle last => last
  | .dtor _ (.operation res) _ => some res
  | _ => none

/-- The call `c` has come to `f`. -/
def Journal.note (j : Journal) (c : Operation) (ok : Bool) (f : Frame) : Journal :=
  match f.answer with
  | some res => { pending := none, answered := j.answered ++ [⟨c, ok, res⟩] }
  | none => { j with pending := some (c, ok) }

/-- The journal of the application thread of `o`, after the step to `s'`. -/
def journal (o : ObjId) (j : Journal) (_ : State) (l : Label) (s' : State) : Journal :=
  match l, j.pending with
  | .call t c, _ => if t = .app o then j.note c true (s'.frame t) else j
  | .exec t x, some (c, ok) => if t = .app o then j.note c (ok && x = .ok) (s'.frame t) else j
  | _, _ => j

/-- Only the application thread of `o` calls the library, it starts and stops exchanges of `o`, and
the creation of a thread succeeds. -/
structure StartsAndStops (o : ObjId) (s : State) (l : Label) : Prop where
  call : ∀ t c, l = .call t c → t = .app o ∧
    ((∃ e callback, c = .qpidReceiveMessages o e callback) ∨ ∃ e, c = .qpidReceiveStop o e)
  createThread : ∀ t p e r, l = .exec t .throw → s.frame t ≠ .start .createThread p e r

/-! ### The invariant -/

/-- What holds at each frame of a call on `o`, whose registry is `reg`, with the entry of the call
in the journal. -/
inductive InCall (o : ObjId) (reg : Registry) (recv : RecvId → Receiver) :
    Frame → Option (Operation × Bool) → Prop
  | idle {last : Option Result} : InCall o reg recv (.idle last) none
  | construct {e : String} : reg.lookup e = none →
      InCall o reg recv (.construct o e) (some (.qpidReceiveMessages o e true, true))
  | start {pc : StartPc} {e : String} {r : RecvId} : pc ≠ .handler → reg.lookup e = none →
      (pc = .createReceiver ∨ pc = .createThread → (recv r).mExchange = e) →
      InCall o reg recv (.start pc o e r) (some (.qpidReceiveMessages o e true, true))
  | handler {e : String} {r : RecvId} : reg.lookup e = none →
      InCall o reg recv (.start .handler o e r) (some (.qpidReceiveMessages o e true, false))
  | emplace {e : String} {r : RecvId} : reg.lookup e = none → (recv r).mExchange = e →
      (recv r).thread = .joinable →
      InCall o reg recv (.emplace o e r) (some (.qpidReceiveMessages o e true, true))
  | index {e : String} {r : RecvId} : reg.lookup e = some r → (recv r).mReceivingActive = true →
      InCall o reg recv (.index o e) (some (.qpidReceiveStop o e, true))
  | stop {pc : StopPc} {e : String} {r : RecvId} : reg.lookup e = some r →
      (pc = .test → (recv r).mReceivingActive = true) →
      InCall o reg recv (.stop pc (.receiveStop o e) r) (some (.qpidReceiveStop o e, true))
  | erase {e : String} {r : RecvId} {ok : Bool} : reg.lookup e = some r →
      InCall o reg recv (.erase o e (if ok then .qpidSuccess else .qpidError))
        (some (.qpidReceiveStop o e, ok))
  | dtor {pc : DtorPc} {res : Result} {r : RecvId} :
      ((recv r).thread = .joinable → reg.lookup (recv r).mExchange = none) →
      InCall o reg recv (.dtor pc (.operation res) r) none

/-- The state of a library that one application thread uses, and the journal of that thread. -/
structure Serial (o : ObjId) (s : State) (j : Journal) : Prop where
  inCall : InCall o (s.activeReceivers o) s.recv (s.frame (.app o)) j.pending
  others : ∀ u, u ≠ .app o → s.frame u = .idle none
  exchange : ∀ e r, s.Registered o e r → (s.recv r).mExchange = e
  /-- A receiver is active until the stop of its exchange. -/
  active : ∀ e r, s.Registered o e r →
    (s.recv r).mReceivingActive = true ∨ (s.frame (.app o)).stops o e
  thread : ∀ e r, s.Registered o e r →
    (s.recv r).thread = .joinable ∨ ∃ st, s.frame (.app o) = .erase o e st
  joinable : ∀ r, (s.recv r).thread = .joinable → (∃ e, s.Registered o e r) ∨
    (∃ e, s.frame (.app o) = .emplace o e r) ∨
      ∃ pc res, s.frame (.app o) = .dtor pc (.operation res) r
  answered : exchanges.run ∅ j.answered = some (s.activeReceivers o).keys.toFinset
  last : ∀ res, (s.frame (.app o)).answer = some res →
    ∃ c ok, j.answered.getLast? = some ⟨c, ok, res⟩

section Step

variable {o : ObjId} {s s' : State} {j : Journal} {l : Label}

theorem Registry.mem_keys_iff {reg : Registry} {e : String} :
    e ∈ reg.keys.toFinset ↔ ∃ r, reg.lookup e = some r := by
  rw [List.mem_toFinset, ← AList.mem_keys, ← AList.lookup_isSome, Option.isSome_iff_exists]

theorem Registry.notMem_keys_iff {reg : Registry} {e : String} :
    e ∉ reg.keys.toFinset ↔ reg.lookup e = none := by
  rw [Registry.mem_keys_iff, ← Option.ne_none_iff_exists', not_not]

theorem Registry.keys_toFinset_insert (reg : Registry) (e : String) (r : RecvId) :
    (reg.insert e r).keys.toFinset = insert e reg.keys.toFinset := by
  ext f
  rw [Finset.mem_insert, List.mem_toFinset, List.mem_toFinset, ← AList.mem_keys, ← AList.mem_keys,
    AList.mem_insert]

theorem Registry.keys_toFinset_erase (reg : Registry) (e : String) :
    (reg.erase e).keys.toFinset = reg.keys.toFinset.erase e := by
  ext f
  rw [Finset.mem_erase, List.mem_toFinset, List.mem_toFinset, ← AList.mem_keys, ← AList.mem_keys,
    AList.mem_erase]

/-- Steps of workers, and of the broker, leave the calls alone. -/
theorem Serial.congr (hs : Serial o s j) (hframe : s'.frame = s.frame)
    (hreg : s'.activeReceivers = s.activeReceivers)
    (hrecv : ∀ r, (s'.recv r).mExchange = (s.recv r).mExchange ∧
      (s'.recv r).thread = (s.recv r).thread ∧
      (s'.recv r).mReceivingActive = (s.recv r).mReceivingActive) : Serial o s' j := by
  have hkeep : ∀ e r, s'.Registered o e r ↔ s.Registered o e r := by
    simp [State.Registered, hreg]
  constructor
  · have hin := hs.inCall
    rw [hframe, hreg]
    generalize s.frame (.app o) = f, j.pending = p at hin
    cases hin with
    | idle => exact .idle
    | construct h => exact .construct h
    | start hpc h he => exact .start hpc h (by rwa [(hrecv _).1])
    | handler h => exact .handler h
    | emplace h he ht => exact .emplace h (by rwa [(hrecv _).1]) (by rwa [(hrecv _).2.1])
    | index hr ha => exact .index hr (by rwa [(hrecv _).2.2])
    | stop hr ha => exact .stop hr (by rwa [(hrecv _).2.2])
    | erase hr => exact .erase hr
    | dtor h => exact .dtor (by rwa [(hrecv _).1, (hrecv _).2.1])
  · rw [hframe]
    exact hs.others
  · simpa [hkeep, hrecv] using hs.exchange
  · simpa [hkeep, hrecv, hframe] using hs.active
  · simpa [hkeep, hrecv, hframe] using hs.thread
  · simpa [hkeep, hrecv, hframe] using hs.joinable
  · rw [hreg]
    exact hs.answered
  · rw [hframe]
    exact hs.last

/-- What is known of the last answer when the call `c` has come to `f`. -/
theorem Journal.note_of_answer {c : Operation} {ok : Bool} {f : Frame} {res : Result}
    (h : f.answer = some res) :
    j.note c ok f = { pending := none, answered := j.answered ++ [⟨c, ok, res⟩] } := by
  rw [Journal.note, h]

theorem Journal.note_of_none {c : Operation} {ok : Bool} {f : Frame} (h : f.answer = none) :
    j.note c ok f = { j with pending := some (c, ok) } := by
  rw [Journal.note, h]

/-- The journal is true of the answer of `f`, and of the keys of the registry. -/
structure Journal.Settles (reg : Registry) (f : Frame) (j : Journal) : Prop where
  answered : exchanges.run ∅ j.answered = some reg.keys.toFinset
  last : ∀ res, f.answer = some res → ∃ c ok, j.answered.getLast? = some ⟨c, ok, res⟩

/-- A call that is not settled yet leaves the keys alone. -/
theorem Serial.settles_of_none (hs : Serial o s j) {c : Operation} {ok : Bool} {f : Frame}
    (hf : f.answer = none) : (j.note c ok f).Settles (s.activeReceivers o) f := by
  rw [Journal.note_of_none hf]
  exact ⟨hs.answered, by simp [hf]⟩

/-- A call that is settled changes the keys as the abstract set changes. -/
theorem Serial.settles_of_answer (hs : Serial o s j) {c : Operation} {ok : Bool} {f : Frame}
    {res : Result} {reg : Registry} (hf : f.answer = some res)
    (h : Answer.apply (s.activeReceivers o).keys.toFinset ⟨c, ok, res⟩ = some reg.keys.toFinset) :
    (j.note c ok f).Settles reg f := by
  rw [Journal.note_of_answer hf]
  refine ⟨?_, fun res' h' => ⟨c, ok, by simp [Option.some.inj (hf.symm.trans h')]⟩⟩
  rw [Machine.run_append, hs.answered]
  simpa [exchanges] using h

/-- A step outside of a stop.  The receivers that are registered stay as they are. -/
theorem Serial.advance (hs : Serial o s j) {f : Frame} {j' : Journal}
    (hframe : ∀ u, s'.frame u = if u = .app o then f else s.frame u)
    (hreg : s'.activeReceivers = s.activeReceivers)
    (hrecv : ∀ e r, s.Registered o e r → s'.recv r = s.recv r)
    (hidle : ∀ e, ¬ (s.frame (.app o)).stops o e)
    (hjoin : ∀ r, (s'.recv r).thread = .joinable → (∃ e, s.Registered o e r) ∨
      (∃ e, f = .emplace o e r) ∨ ∃ pc res, f = .dtor pc (.operation res) r)
    (hin : InCall o (s.activeReceivers o) s'.recv f j'.pending)
    (hsettles : j'.Settles (s.activeReceivers o) f) : Serial o s' j' := by
  have hkeep : ∀ e r, s'.Registered o e r ↔ s.Registered o e r := by
    simp [State.Registered, hreg]
  refine ⟨by simpa [hframe, hreg] using hin,
    fun u hu => by simpa [hframe, hu] using hs.others u hu, fun e r hr => ?_, fun e r hr => ?_,
    fun e r hr => ?_, fun r hr => ?_, by simpa [hreg] using hsettles.answered,
    by simpa [hframe] using hsettles.last⟩
  · rw [hkeep] at hr
    rw [hrecv e r hr]
    exact hs.exchange e r hr
  · rw [hkeep] at hr
    rw [hrecv e r hr]
    exact Or.inl ((hs.active e r hr).resolve_right (hidle e))
  · rw [hkeep] at hr
    rw [hrecv e r hr]
    refine Or.inl ((hs.thread e r hr).resolve_right ?_)
    rintro ⟨st, hf⟩
    exact hidle e (by simp [hf])
  · simpa [hkeep, hframe] using hjoin r hr

/-- A step of the stop of `e`, which is registered with `r`. -/
theorem Serial.advanceStop (hs : Serial o s j) (hlife : Life s) {f : Frame} {j' : Journal}
    {e : String} {r : RecvId} (hr : s.Registered o e r)
    (hframe : ∀ u, s'.frame u = if u = .app o then f else s.frame u)
    (hreg : s'.activeReceivers = s.activeReceivers)
    (hrecv : ∀ q, q ≠ r → s'.recv q = s.recv q)
    (hexchange : (s'.recv r).mExchange = (s.recv r).mExchange)
    (hthread : (s'.recv r).thread = .joinable ∨ ∃ st, f = .erase o e st)
    (hstops : f.stops o e) (honly : ∀ e', (s.frame (.app o)).stops o e' → e' = e)
    (hjoin : ∀ q, (∀ e, s.frame (.app o) ≠ .emplace o e q) ∧
      ∀ pc res, s.frame (.app o) ≠ .dtor pc (.operation res) q)
    (hin : InCall o (s.activeReceivers o) s'.recv f j'.pending)
    (hsettles : j'.Settles (s.activeReceivers o) f) : Serial o s' j' := by
  have hkeep : ∀ e r, s'.Registered o e r ↔ s.Registered o e r := by
    simp [State.Registered, hreg]
  -- the receivers of other exchanges stay as they are
  have hother : ∀ e' q, s.Registered o e' q → e' = e ∧ q = r ∨ e' ≠ e ∧ s'.recv q = s.recv q := by
    intro e' q hq
    by_cases he : e' = e
    · subst he
      exact Or.inl ⟨rfl, Option.some.inj (hq.symm.trans hr)⟩
    · exact Or.inr ⟨he, hrecv q fun hqr => he (hlife.reg_inj o e' o e q hq (hqr ▸ hr)).2⟩
  refine ⟨by simpa [hframe, hreg] using hin,
    fun u hu => by simpa [hframe, hu] using hs.others u hu, fun e' q hq => ?_, fun e' q hq => ?_,
    fun e' q hq => ?_, fun q hq => ?_, by simpa [hreg] using hsettles.answered,
    by simpa [hframe] using hsettles.last⟩
  · rw [hkeep] at hq
    rcases hother e' q hq with ⟨rfl, rfl⟩ | ⟨-, hsame⟩
    · rw [hexchange]
      exact hs.exchange e' q hq
    · rw [hsame]
      exact hs.exchange e' q hq
  · rw [hkeep] at hq
    rcases hother e' q hq with ⟨rfl, rfl⟩ | ⟨hne, hsame⟩
    · exact Or.inr (by simpa [hframe] using hstops)
    · rw [hsame]
      exact Or.inl ((hs.active e' q hq).resolve_right fun h => hne (honly e' h))
  · rw [hkeep] at hq
    rcases hother e' q hq with ⟨rfl, rfl⟩ | ⟨hne, hsame⟩
    · simpa [hframe] using hthread
    · rw [hsame]
      refine Or.inl ((hs.thread e' q hq).resolve_right ?_)
      rintro ⟨st, hf⟩
      exact hne (honly e' (by simp [hf]))
  · by_cases hqr : q = r
    · exact Or.inl ⟨e, (hkeep e q).2 (hqr ▸ hr)⟩
    · rw [hrecv q hqr] at hq
      rcases hs.joinable q hq with ⟨e', hreg'⟩ | ⟨e', hf⟩ | ⟨pc, res, hf⟩
      · exact Or.inl ⟨e', (hkeep e' q).2 hreg'⟩
      · exact absurd hf ((hjoin q).1 e')
      · exact absurd hf ((hjoin q).2 pc res)

theorem journal_exec {x : Outcome} {c : Operation} {ok : Bool} {f : Frame}
    (hp : j.pending = some (c, ok)) (hf : s'.frame (.app o) = f) :
    journal o j s (.exec (.app o) x) s' = j.note c (ok && x = .ok) f := by
  simp only [journal, hp, if_true, hf]

theorem journal_exec_of_none {x : Outcome} (hp : j.pending = none) :
    journal o j s (.exec (.app o) x) s' = j := by
  simp only [journal, hp]

/-- A step of the operation that holds `q`, which is in no registry. -/
theorem Serial.hold (hs : Serial o s j) (hlife : Life s) {f : Frame} {q : RecvId} {j' : Journal}
    (hq : (s.frame (.app o)).holds q) (hidle : ∀ e, ¬ (s.frame (.app o)).stops o e)
    (hframe : ∀ u, s'.frame u = if u = .app o then f else s.frame u)
    (hreg : s'.activeReceivers = s.activeReceivers) (hrecv : ∀ r, r ≠ q → s'.recv r = s.recv r)
    (hjoin : (s'.recv q).thread = .joinable →
      (∃ e, f = .emplace o e q) ∨ ∃ pc res, f = .dtor pc (.operation res) q)
    (hin : InCall o (s.activeReceivers o) s'.recv f j'.pending)
    (hsettles : j'.Settles (s.activeReceivers o) f) : Serial o s' j' := by
  refine hs.advance hframe hreg (fun e r hr => hrecv r ?_) hidle (fun r hr => ?_) hin hsettles
  · rintro rfl
    exact hlife.holds_unreg _ o e r hq hr
  · by_cases hrq : r = q
    · subst hrq
      exact Or.inr (hjoin hr)
    · rw [hrecv r hrq] at hr
      rcases hs.joinable r hr with hreg' | ⟨e, hf⟩ | ⟨pc, res, hf⟩
      · exact Or.inl hreg'
      · simp [hf] at hq
        exact absurd hq hrq
      · simp [hf] at hq
        exact absurd hq hrq

end Step

end Comyno
