import Comyno.Qpid.Exchanges

/-!
# The registry refines a set of exchanges

The invariant `Serial` through the steps of a library that one application thread uses: the calls
(`Serial.call`), the steps of a start (`Serial.exec_start`) and of a stop (`Serial.exec_stop`) up
to their answers, and the destruction of a receiver that may follow (`Serial.exec_dtor`).

## Main results

* `registry_refines` : the answers of every run are a run of `exchanges`, which leads to the keys
  of the registry; and each exchange has at most one worker.
-/

namespace Comyno

open Conc

section Step

variable {o : ObjId} {s s' : State} {j : Journal} {l : Label}

/-- The calls. -/
theorem Serial.call (hs : Serial o s j) (hlife : Life s) {t : Thread} {c : Operation}
    (hc : StartsAndStops o s (.call t c)) (h : Step s (.call t c) s') :
    Serial o s' (journal o j s (.call t c) s') := by
  obtain ⟨rfl, hop⟩ := hc.call t c rfl
  have hready : ∃ last, s.frame (.app o) = .idle last := by
    cases h <;> exact State.idle_of_ready ‹_›
  obtain ⟨last, hf⟩ := hready
  have hjoin : ∀ r, (s.recv r).thread = .joinable → ∃ e, s.Registered o e r := by
    simpa [hf] using hs.joinable
  -- a call that stays outside of a stop
  have outside : ∀ f, InCall o (s.activeReceivers o) s.recv f (j.note c true f).pending →
      (j.note c true f).Settles (s.activeReceivers o) f →
      Serial o (s.goto (.app o) f) (j.note c true f) := fun f hin hsettles =>
    hs.advance (f := f) (by simp) rfl (by simp) (by simp [hf])
      (fun r hr => Or.inl (hjoin r hr)) hin hsettles
  simp only [journal, if_true]
  cases h with
  | callEmpty =>
    simp only [State.goto_frame, if_true]
    exact outside _ .idle (hs.settles_of_answer rfl (by simp [Answer.apply]))
  | @callAlready _ p e r _ hr =>
    obtain rfl : p = o := by simpa using hop
    simp only [State.goto_frame, if_true]
    refine outside _ .idle (hs.settles_of_answer rfl ?_)
    simp only [Answer.apply, if_pos (Registry.mem_keys_iff.2 ⟨r, hr⟩)]
    rfl
  | @callConstruct _ p e _ hnone =>
    obtain rfl : p = o := by simpa using hop
    simp only [State.goto_frame, if_true]
    exact outside _ (.construct hnone) (hs.settles_of_none rfl)
  | @callInvalid _ p e _ hnone =>
    obtain rfl : p = o := by simpa using hop
    simp only [State.goto_frame, if_true]
    refine outside _ .idle (hs.settles_of_answer rfl ?_)
    simp only [Answer.apply, if_pos (Registry.notMem_keys_iff.2 hnone)]
    rfl
  | @callIndex _ p e r _ hr =>
    obtain rfl : p = o := by simpa using hop
    simp only [State.goto_frame, if_true]
    have hactive := (hs.active e r hr).resolve_right (by simp [hf])
    have hthread := (hs.thread e r hr).resolve_right (by simp [hf])
    exact hs.advanceStop hlife hr (f := .index p e) (by simp) rfl (by simp) rfl (Or.inl hthread)
      (by simp) (by simp [hf]) (by simp [hf]) (.index hr hactive) (hs.settles_of_none rfl)
  | callDestructor => simp at hop

/-- The end of a start that succeeds. -/
theorem Serial.emplace (hs : Serial o s j) (hb : Born s) {e : String} {r : RecvId}
    (hf : s.frame (.app o) = .emplace o e r) (hnone : (s.activeReceivers o).lookup e = none)
    (hexchange : (s.recv r).mExchange = e) (hthread : (s.recv r).thread = .joinable)
    (hreg : s'.activeReceivers o = (s.activeReceivers o).insert e r) (hrecv : s'.recv = s.recv)
    (hframe : ∀ u, s'.frame u =
      if u = .app o then .idle (some (.status .qpidSuccess)) else s.frame u) :
    Serial o s' (j.note (.qpidReceiveMessages o e true) true
      (.idle (some (.status .qpidSuccess)))) := by
  have hsettles : (j.note (.qpidReceiveMessages o e true) true
      (.idle (some (.status .qpidSuccess)))).Settles (s'.activeReceivers o)
        (.idle (some (.status .qpidSuccess))) :=
    hs.settles_of_answer rfl (by
      rw [hreg, Registry.keys_toFinset_insert]
      simp [Answer.apply, Registry.notMem_keys_iff.2 hnone])
  have hregistered : ∀ f q, s'.Registered o f q ↔ f = e ∧ q = r ∨ s.Registered o f q := by
    intro f q
    rw [State.Registered, hreg, Registry.lookup_insert]
    by_cases hfe : f = e
    · subst hfe
      simp [State.Registered, hnone, eq_comm]
    · simp [State.Registered, hfe]
  refine ⟨by simpa [hframe] using .idle, fun u hu => by simpa [hframe, hu] using hs.others u hu,
    fun f q hq => ?_, fun f q hq => ?_, fun f q hq => ?_, fun q hq => ?_, hsettles.answered,
    by simpa [hframe] using hsettles.last⟩
  · rw [hrecv]
    rcases (hregistered f q).1 hq with ⟨rfl, rfl⟩ | hq
    · exact hexchange
    · exact hs.exchange f q hq
  · rw [hrecv]
    rcases (hregistered f q).1 hq with ⟨rfl, rfl⟩ | hq
    · exact Or.inl (hb.emplace_active _ _ _ _ hf)
    · exact Or.inl ((hs.active f q hq).resolve_right (by simp [hf]))
  · rw [hrecv]
    rcases (hregistered f q).1 hq with ⟨rfl, rfl⟩ | hq
    · exact Or.inl hthread
    · exact Or.inl ((hs.thread f q hq).resolve_right (by simp [hf]))
  · rw [hrecv] at hq
    rcases hs.joinable q hq with ⟨f, hq⟩ | ⟨f, hq⟩ | ⟨pc, res, hq⟩
    · exact Or.inl ⟨f, (hregistered f q).2 (Or.inr hq)⟩
    · rw [hf] at hq
      cases hq
      exact Or.inl ⟨e, (hregistered e r).2 (Or.inl ⟨rfl, rfl⟩)⟩
    · simp [hf] at hq

/-- The answer of a stop. -/
theorem Serial.erase (hs : Serial o s j) {e : String} {r : RecvId} {ok : Bool} {f : Frame}
    (hf : s.frame (.app o) = .erase o e (if ok then .qpidSuccess else .qpidError))
    (hr : s.Registered o e r)
    (hreg : s'.activeReceivers o = (s.activeReceivers o).erase e) (hrecv : s'.recv = s.recv)
    (hframe : ∀ u, s'.frame u = if u = .app o then f else s.frame u)
    (hf' : f = .dtor .test (.operation (.status (if ok then .qpidSuccess else .qpidError))) r) :
    Serial o s' (j.note (.qpidReceiveStop o e) ok f) := by
  have hanswer : f.answer = some (.status (if ok then .qpidSuccess else .qpidError)) := by
    rw [hf']
    rfl
  have hsettles : (j.note (.qpidReceiveStop o e) ok f).Settles (s'.activeReceivers o) f :=
    hs.settles_of_answer hanswer (by
      rw [hreg, Registry.keys_toFinset_erase]
      simp only [Answer.apply, Registry.mem_keys_iff.2 ⟨r, hr⟩, not_true_eq_false,
        if_false, if_true])
  have hregistered : ∀ g q, s'.Registered o g q ↔ g ≠ e ∧ s.Registered o g q := by
    intro g q
    rw [State.Registered, hreg, Registry.lookup_erase]
    by_cases hge : g = e <;> simp [State.Registered, hge]
  refine ⟨?_, fun u hu => by simpa [hframe, hu] using hs.others u hu, fun g q hq => ?_,
    fun g q hq => ?_, fun g q hq => ?_, fun q hq => ?_, hsettles.answered,
    by simpa [hframe] using hsettles.last⟩
  · rw [hframe, if_pos rfl, Journal.note_of_answer hanswer, hf']
    refine .dtor fun _ => ?_
    rw [hrecv, hs.exchange e r hr, hreg, Registry.lookup_erase, if_pos rfl]
  · rw [hrecv]
    exact hs.exchange g q ((hregistered g q).1 hq).2
  · obtain ⟨hge, hq⟩ := (hregistered g q).1 hq
    rw [hrecv]
    exact Or.inl ((hs.active g q hq).resolve_right (by simpa [hf] using Ne.symm hge))
  · obtain ⟨hge, hq⟩ := (hregistered g q).1 hq
    rw [hrecv]
    exact Or.inl ((hs.thread g q hq).resolve_right (by simp [hf, Ne.symm hge]))
  · rw [hrecv] at hq
    rcases hs.joinable q hq with ⟨g, hq⟩ | ⟨g, hq⟩ | ⟨pc, res, hq⟩
    · by_cases hge : g = e
      · subst hge
        cases hq.symm.trans hr
        exact Or.inr (Or.inr ⟨_, _, by rw [hframe, if_pos rfl, hf']⟩)
      · exact Or.inl ⟨g, (hregistered g q).2 ⟨hge, hq⟩⟩
    · simp [hf] at hq
    · simp [hf] at hq

/-- A step of a start on its receiver. -/
theorem Serial.startStep (hs : Serial o s j) (hlife : Life s) {pc : StartPc} {e : String}
    {r : RecvId} {ok : Bool} {x : Outcome} {R : Receiver} {f : Frame}
    (hp : j.pending = some (.qpidReceiveMessages o e true, ok))
    (hf : s.frame (.app o) = .start pc o e r)
    (hjoin : R.thread = .joinable →
      (∃ e, f = .emplace o e r) ∨ ∃ pc res, f = .dtor pc (.operation res) r)
    (hin : InCall o (s.activeReceivers o) (s.setRecv r R).recv f
      (j.note (.qpidReceiveMessages o e true) (ok && x = .ok) f).pending)
    (hsettles : (j.note (.qpidReceiveMessages o e true) (ok && x = .ok) f).Settles
      (s.activeReceivers o) f) :
    Serial o ((s.setRecv r R).goto (.app o) f)
      (journal o j s (.exec (.app o) x) ((s.setRecv r R).goto (.app o) f)) := by
  rw [journal_exec (f := f) hp (by simp)]
  exact hs.hold hlife (by rw [hf]; rfl) (by simp [hf]) (by simp) rfl (by simp +contextual)
    (by simpa using hjoin) hin hsettles

/-- The steps of `qpidReceiveMessages` up to its answer. -/
theorem Serial.exec_start (hs : Serial o s j) (hlife : Life s) (hb : Born s) {x : Outcome}
    (hc : StartsAndStops o s (.exec (.app o) x)) (h : Step s (.exec (.app o) x) s')
    (hf : (∃ e, s.frame (.app o) = .construct o e) ∨ ∃ q, (s.frame (.app o)).builds q) :
    Serial o s' (journal o j s (.exec (.app o) x) s') := by
  have hin := hs.inCall
  generalize hp : j.pending = p at hin
  cases h with
  | @construct _ p e hf =>
    rw [hf] at hin
    cases hin with
    | construct hnone =>
      rw [journal_exec (f := .start .openConnection o e s.next) hp (by simp)]
      refine hs.advance (f := .start .openConnection o e s.next) (by simp) rfl (by simp)
        (by simp [hf]) ?_ (.start (by simp) hnone (by simp)) (hs.settles_of_none rfl)
      simpa [hf] using hs.joinable
  | @constructThrow _ p e hf =>
    rw [hf] at hin
    cases hin with
    | construct hnone =>
      rw [journal_exec (f := .idle (some .threw)) hp (by simp)]
      refine hs.advance (f := .idle (some .threw)) (by simp) rfl (by simp) (by simp [hf]) ?_ .idle
        (hs.settles_of_answer rfl ?_)
      · simpa [hf] using hs.joinable
      · simp [Answer.apply, Registry.notMem_keys_iff.2 hnone]
  | @openConnection _ p e r hf | @createSession _ p e r hf =>
    rw [hf] at hin
    cases hin with
    | start _ hnone _ =>
      exact hs.startStep hlife hp hf (by simp [hb.start_thread _ _ _ _ _ hf])
        (.start (by simp) hnone (by simp)) (hs.settles_of_none rfl)
  | @createReceiver _ p e r hf =>
    rw [hf] at hin
    cases hin with
    | start _ hnone hexchange =>
      exact hs.startStep hlife hp hf (by simp [hb.start_thread _ _ _ _ _ hf])
        (.start (by simp) hnone (by simp [hexchange])) (hs.settles_of_none rfl)
  | @createThread _ p e r hf =>
    rw [hf] at hin
    cases hin with
    | start _ hnone hexchange =>
      exact hs.startStep hlife hp hf (by simp) (.emplace hnone (by simp [hexchange]) (by simp))
        (hs.settles_of_none rfl)
  | @startThrow _ pc p e r hf hpc =>
    rw [hf] at hin
    cases hin with
    | start _ hnone _ =>
      rw [journal_exec (f := .start .handler o e r) hp (by simp)]
      exact hs.hold hlife (f := .start .handler o e r) (q := r) (by rw [hf]; rfl) (by simp [hf])
        (by simp) rfl (by simp) (by simp [hb.start_thread _ _ _ _ _ hf])
        (.handler hnone) (hs.settles_of_none rfl)
    | handler => exact absurd rfl hpc
  | @handler _ p e r hf =>
    rw [hf] at hin
    cases hin with
    | start hpc => exact absurd rfl hpc
    | handler hnone =>
      have hthread := hb.start_thread _ _ _ _ _ hf
      refine hs.startStep hlife hp hf (by simp) (.dtor ?_) (hs.settles_of_answer rfl ?_)
      · simp [Receiver.closeConnection, hthread]
      · simp [Answer.apply, Registry.notMem_keys_iff.2 hnone]
  | @handlerThrow _ p e r hf =>
    rw [hf] at hin
    cases hin with
    | start hpc => exact absurd rfl hpc
    | handler hnone =>
      have hthread := hb.start_thread _ _ _ _ _ hf
      refine hs.startStep hlife hp hf (by simp) (.dtor ?_) (hs.settles_of_answer rfl ?_)
      · simp [Receiver.closeConnectionThrow, hthread]
      · simp [Answer.apply, Registry.notMem_keys_iff.2 hnone]
  | @emplace _ p e r hf hnone =>
    rw [hf] at hin
    cases hin with
    | emplace _ hexchange hthread =>
      rw [journal_exec (f := .idle (some (.status .qpidSuccess))) hp (by simp)]
      exact hs.emplace hb hf hnone hexchange hthread (by simp) rfl (by simp)
  | @emplaceTaken _ p e r q hf hr =>
    rw [hf] at hin
    cases hin with
    | emplace hnone =>
      rw [hnone] at hr
      cases hr
  | _ => simp_all

/-- A step of a stop on its receiver. -/
theorem Serial.stopStep (hs : Serial o s j) (hlife : Life s) {pc : StopPc} {e : String}
    {r : RecvId} {x : Outcome} {R : Receiver} {f : Frame}
    (hp : j.pending = some (.qpidReceiveStop o e, true))
    (hf : s.frame (.app o) = .stop pc (.receiveStop o e) r) (hr : s.Registered o e r)
    (hexchange : R.mExchange = (s.recv r).mExchange)
    (hthread : R.thread = (s.recv r).thread ∨ ∃ st, f = .erase o e st) (hstops : f.stops o e)
    (hin : InCall o (s.activeReceivers o) (s.setRecv r R).recv f
      (j.note (.qpidReceiveStop o e) (x = .ok) f).pending)
    (hsettles : (j.note (.qpidReceiveStop o e) (x = .ok) f).Settles (s.activeReceivers o) f) :
    Serial o ((s.setRecv r R).goto (.app o) f)
      (journal o j s (.exec (.app o) x) ((s.setRecv r R).goto (.app o) f)) := by
  have hjoinable := (hs.thread e r hr).resolve_right (by simp [hf])
  rw [journal_exec (f := f) hp (by simp), Bool.true_and]
  refine hs.advanceStop hlife hr (by simp) rfl (by simp +contextual) (by simpa using hexchange)
    (hthread.imp_left fun h => ?_) hstops (by simp [hf]) (by simp [hf]) hin hsettles
  simpa [h] using hjoinable

/-- The steps of `qpidReceiveStop` up to its answer. -/
theorem Serial.exec_stop (hs : Serial o s j) (hlife : Life s) {x : Outcome}
    (h : Step s (.exec (.app o) x) s')
    (hf : ∃ e, (s.frame (.app o)).stops o e) :
    Serial o s' (journal o j s (.exec (.app o) x) s') := by
  have hin := hs.inCall
  generalize hp : j.pending = p at hin
  cases h with
  | @index _ p e r hf hr =>
    rw [hf] at hin
    cases hin with
    | index hr' hactive =>
      cases hr.symm.trans hr'
      rw [journal_exec (f := .stop .test (.receiveStop o e) r) hp (by simp)]
      exact hs.advanceStop hlife hr (f := .stop .test (.receiveStop o e) r) (by simp) rfl (by simp)
        rfl (Or.inl ((hs.thread e r hr).resolve_right (by simp [hf]))) (by simp) (by simp [hf])
        (by simp [hf]) (.stop hr fun _ => hactive) (hs.settles_of_none rfl)
  | @indexNull _ p e hf hnone =>
    rw [hf] at hin
    cases hin with
    | index hr =>
      rw [hnone] at hr
      cases hr
  | @stopTest _ k r hf hactive =>
    rw [hf] at hin
    cases hin with
    | @stop _ e _ hr _ =>
      rw [journal_exec (f := .stop .clear (.receiveStop o e) r) hp (by simp)]
      exact hs.advanceStop hlife hr (f := .stop .clear (.receiveStop o e) r) (by simp) rfl
        (by simp) rfl (Or.inl ((hs.thread e r hr).resolve_right (by simp [hf]))) (by simp)
        (by simp [hf]) (by simp [hf]) (.stop hr (by simp)) (hs.settles_of_none rfl)
  | @stopInactive _ k r hf hinactive =>
    rw [hf] at hin
    cases hin with
    | stop _ hactive =>
      rw [hactive rfl] at hinactive
      cases hinactive
  | @stopClear _ k r hf | @stopClose _ k r hf =>
    rw [hf] at hin
    cases hin with
    | @stop _ e _ hr _ =>
      exact hs.stopStep hlife hp hf hr rfl (Or.inl rfl) (by simp) (.stop hr (by simp))
        (hs.settles_of_none rfl)
  | @stopCloseThrow _ k r hf =>
    rw [hf] at hin
    cases hin with
    | @stop _ e _ hr _ =>
      exact hs.stopStep hlife hp hf hr rfl (Or.inr ⟨_, rfl⟩) (by simp [StopCaller.frame])
        (@InCall.erase _ _ _ _ _ false hr) (hs.settles_of_none rfl)
  | @stopJoinable _ k r hf hthread =>
    rw [hf] at hin
    cases hin with
    | @stop _ e _ hr _ =>
      rw [journal_exec (f := .stop .join (.receiveStop o e) r) hp (by simp)]
      exact hs.advanceStop hlife hr (f := .stop .join (.receiveStop o e) r) (by simp) rfl (by simp)
        rfl (Or.inl hthread) (by simp) (by simp [hf]) (by simp [hf]) (.stop hr (by simp))
        (hs.settles_of_none rfl)
  | @stopNotJoinable _ k r hf hthread =>
    rw [hf] at hin
    cases hin with
    | @stop _ e _ hr _ => exact absurd ((hs.thread e r hr).resolve_right (by simp [hf])) hthread
  | @stopJoinThrow _ k r hf hjoin =>
    rw [hf] at hin
    cases hin with
    | @stop _ e _ hr _ =>
      have hthread := (hs.thread e r hr).resolve_right (by simp [hf])
      simp [hthread] at hjoin
  | @stopJoin _ k r hf _ _ _ =>
    rw [hf] at hin
    cases hin with
    | @stop _ e _ hr _ =>
      exact hs.stopStep hlife hp hf hr rfl (Or.inr ⟨_, rfl⟩) (by simp [StopCaller.frame])
        (@InCall.erase _ _ _ _ _ true hr) (hs.settles_of_none rfl)
  | @erase _ p e st r hf hr =>
    rw [hf] at hin
    cases hin with
    | @erase _ _ ok hr' =>
      cases hr.symm.trans hr'
      rw [journal_exec (f := .dtor .test
        (.operation (.status (if ok then .qpidSuccess else .qpidError))) r) hp (by simp)]
      simp only [decide_true, Bool.and_true]
      exact hs.erase hf hr (by simp) rfl (by simp) rfl
  | @eraseNone _ p e st hf hnone =>
    rw [hf] at hin
    cases hin with
    | erase hr =>
      rw [hnone] at hr
      cases hr
  | dtorTest hq | dtorInactive hq | dtorClear hq | dtorClose hq | dtorCloseThrow hq
  | dtorJoinable hq | dtorNotJoinable hq | dtorJoinThrow hq | dtorJoin hq =>
    rw [hq] at hin hf
    cases hin
    simp at hf
  | stopAllDone hq | clearAllDone hq =>
    rw [hq] at hin
    cases hin
  | _ => simp_all

/-- The steps of `~QPIDReceiver`, after the answer. -/
theorem Serial.exec_dtor (hs : Serial o s j) (hlife : Life s) {x : Outcome}
    (h : Step s (.exec (.app o) x) s') {pc : DtorPc} {k : DtorCaller} {r : RecvId}
    (hf : s.frame (.app o) = .dtor pc k r) :
    Serial o s' (journal o j s (.exec (.app o) x) s') := by
  have hin := hs.inCall
  have hlast := hs.last
  generalize hp : j.pending = p at hin
  rw [hf] at hin hlast
  cases hin with
  | @dtor _ res _ hjoin =>
    rw [journal_exec_of_none hp]
    have hold : (s.frame (.app o)).holds r := by simp [hf]
    have hidle : ∀ e, ¬ (s.frame (.app o)).stops o e := by simp [hf]
    have hsettles : ∀ f, f.answer = some res → j.Settles (s.activeReceivers o) f := fun f hf =>
      ⟨hs.answered, by rw [hf]; exact hlast⟩
    -- `~QPIDReceiver` goes on
    have goes : ∀ pc', (∀ u, s'.frame u = if u = .app o then .dtor pc' (.operation res) r
        else s.frame u) → s'.activeReceivers = s.activeReceivers →
        (∀ q, q ≠ r → s'.recv q = s.recv q) → (s'.recv r).mExchange = (s.recv r).mExchange →
        (s'.recv r).thread = (s.recv r).thread → Serial o s' j := by
      intro pc' hframe hreg hrecv hexchange hthread
      refine hs.hold hlife hold hidle hframe hreg hrecv (fun _ => Or.inr ⟨_, _, rfl⟩) ?_
        (hsettles _ rfl)
      rw [hp]
      exact .dtor (by rwa [hexchange, hthread])
    -- `~QPIDReceiver` ends
    have ends : (∀ u, s'.frame u = if u = .app o then .idle (some res) else s.frame u) →
        s'.activeReceivers = s.activeReceivers → (∀ q, q ≠ r → s'.recv q = s.recv q) →
        (s'.recv r).thread ≠ .joinable → Serial o s' j := by
      intro hframe hreg hrecv hthread
      refine hs.hold hlife hold hidle hframe hreg hrecv (fun hq => absurd hq hthread) ?_
        (hsettles _ rfl)
      rw [hp]
      exact .idle
    cases h with
    | dtorTest hq =>
      cases hf.symm.trans hq
      exact goes .clear (by simp) rfl (by simp) rfl rfl
    | dtorClear hq =>
      cases hf.symm.trans hq
      exact goes .close (by simp) rfl (by simp +contextual) (by simp) (by simp)
    | dtorInactive hq =>
      cases hf.symm.trans hq
      exact goes .joinable (by simp) rfl (by simp) rfl rfl
    | dtorClose hq =>
      cases hf.symm.trans hq
      exact goes .joinable (by simp) rfl (by simp +contextual) (by simp [Receiver.closeConnection])
        (by simp [Receiver.closeConnection])
    | dtorJoinable hq =>
      cases hf.symm.trans hq
      exact goes .join (by simp) rfl (by simp) rfl rfl
    | dtorCloseThrow hq =>
      cases hf.symm.trans hq
      exact goes .close (by simp [← hf]) rfl (by simp +contextual)
        (by simp [Receiver.closeConnectionThrow]) (by simp [Receiver.closeConnectionThrow])
    | dtorJoinThrow hq =>
      cases hf.symm.trans hq
      exact goes .join (by simp [← hf]) rfl (by simp) rfl rfl
    | dtorNotJoinable hq hthread =>
      cases hf.symm.trans hq
      exact ends (by simp [DtorCaller.frame]) rfl (by simp +contextual) (by simpa using hthread)
    | dtorJoin hq =>
      cases hf.symm.trans hq
      exact ends (by simp [DtorCaller.frame]) rfl (by simp +contextual) (by simp)
    | _ => simp_all

theorem Serial.step (hs : Serial o s j) (hlife : Life s) (hb : Born s)
    (hc : StartsAndStops o s l) (h : Step s l s') : Serial o s' (journal o j s l s') := by
  cases l with
  | work r a =>
    cases h with
    | work _ _ hw =>
      refine hs.congr rfl rfl fun q => ?_
      obtain ⟨hactive, hexchange, hthread, -⟩ := hw.keeps
      by_cases hq : q = r <;> simp_all
  | lost r =>
    cases h with
    | lost =>
      refine hs.congr rfl rfl fun q => ?_
      by_cases hq : q = r <;> simp_all
  | call t c => exact hs.call hlife hc h
  | exec t x =>
    by_cases ht : t = .app o
    · subst ht
      have hin := hs.inCall
      generalize hf : s.frame (.app o) = f, j.pending = p at hin
      cases hin with
      | idle => cases h <;> simp_all
      | construct => exact hs.exec_start hlife hb hc h (Or.inl ⟨_, hf⟩)
      | start | handler | emplace => exact hs.exec_start hlife hb hc h (Or.inr ⟨_, by rw [hf]; rfl⟩)
      | index | stop | erase => exact hs.exec_stop hlife h ⟨_, by simp [hf]; rfl⟩
      | dtor => exact hs.exec_dtor hlife h hf
    · have hidle := hs.others t ht
      cases h <;> simp_all
  | pick t e =>
    by_cases ht : t = .app o
    · subst ht
      have hin := hs.inCall
      cases h with
      | pickStop hf | pickClear hf =>
        rw [hf] at hin
        cases hin
    · have hidle := hs.others t ht
      cases h <;> simp_all

theorem Serial.init (o : ObjId) : Serial o State.init {} where
  inCall := .idle
  others _ _ := rfl
  exchange _ _ h := by cases h
  active _ _ h := by cases h
  thread _ _ h := by cases h
  joinable _ h := by cases h
  answered := rfl
  last _ h := by cases h

/-- A receiver with a worker thread is registered under its exchange, or it is the one the present
call works on and no receiver is registered under its exchange. -/
theorem Serial.place (hs : Serial o s j) {r : RecvId} (hr : (s.recv r).thread = .joinable) :
    s.Registered o (s.recv r).mExchange r ∨
      (s.activeReceivers o).lookup (s.recv r).mExchange = none ∧
        (s.frame (.app o)).recv = some r := by
  have hin := hs.inCall
  rcases hs.joinable r hr with ⟨e, hreg⟩ | ⟨e, hf⟩ | ⟨pc, res, hf⟩
  · rw [hs.exchange e r hreg]
    exact Or.inl hreg
  · rw [hf] at hin ⊢
    generalize j.pending = p at hin
    cases hin with
    | emplace hnone hexchange => exact Or.inr ⟨by rw [hexchange]; exact hnone, rfl⟩
  · rw [hf] at hin ⊢
    generalize j.pending = p at hin
    cases hin with
    | dtor hnone => exact Or.inr ⟨hnone hr, rfl⟩

/-- Receivers with worker threads receive different exchanges. -/
theorem Serial.worker_unique (hs : Serial o s j) {r q : RecvId}
    (hr : (s.recv r).thread = .joinable) (hq : (s.recv q).thread = .joinable)
    (he : (s.recv r).mExchange = (s.recv q).mExchange) : r = q := by
  rcases hs.place hr with hreg | ⟨hnone, hf⟩
  · rcases hs.place hq with hreg' | ⟨hnone', -⟩
    · rw [← he] at hreg'
      exact Option.some.inj (hreg.symm.trans hreg')
    · rw [State.Registered, he, hnone'] at hreg
      cases hreg
  · rcases hs.place hq with hreg' | ⟨-, hf'⟩
    · rw [State.Registered, ← he, hnone] at hreg'
      cases hreg'
    · exact Option.some.inj (hf.symm.trans hf')

end Step

/-- **The registry is a set of exchanges.**  One application thread calls `qpidReceiveMessages` and
`qpidReceiveStop` on `o`, in any number and order, with any outcomes of the calls of the connector
and any interleaving with the workers.  Then the answers it has got are answers of the abstract set,
the set that results is the set of keys of `activeReceivers`, and no two worker threads receive the
same exchange. -/
theorem registry_refines {o : ObjId} {ls : List Label} {s : State}
    (hrun : qpid.run State.init ls = some s)
    (hls : qpid.AllSteps (StartsAndStops o) State.init ls) :
    ∃ j, (qpid.observe (journal o)).run (State.init, {}) ls = some (s, j) ∧
      exchanges.run ∅ j.answered = some (s.activeReceivers o).keys.toFinset ∧
      (∀ res, s.frame (.app o) = .idle (some res) →
        ∃ c ok, j.answered.getLast? = some ⟨c, ok, res⟩) ∧
      ∀ r q, (s.recv r).thread = .joinable → (s.recv q).thread = .joinable →
        (s.recv r).mExchange = (s.recv q).mExchange → r = q := by
  obtain ⟨j, hobs⟩ := Machine.exists_run_observe (u := journal o) hrun ({} : Journal)
  have hreach := Machine.reachableWhere_of_run hobs (Machine.allSteps_observe hls ({} : Journal))
  have hinv := hreach.invariant
    (I := fun p => (Life p.1 ∧ Born p.1) ∧ Serial o p.1 p.2)
    ⟨⟨Life.init, Born.init⟩, Serial.init o⟩ ?_
  · exact ⟨j, hobs, hinv.2.answered, fun res hf => hinv.2.last res (by rw [hf]; rfl),
      fun r q => hinv.2.worker_unique⟩
  · rintro ⟨s, j⟩ l ⟨s', j'⟩ ⟨⟨hlife, hb⟩, hs⟩ hc hst
    obtain ⟨hstep, hj⟩ := Machine.observe_step_eq_some_iff.1 hst
    have h := (step_cases hstep).2
    dsimp only at hj
    subst hj
    exact ⟨⟨hlife.step h, hb.step hlife h⟩, hs.step hlife hb hc h⟩

/-- An application that starts an exchange, is refused a second start of it after its worker has
died, and stops it. -/
def callsLabels : List Label :=
  startLabels 0 "exchange" ++
    [.call (.app 0) (.qpidReceiveMessages 0 "exchange" true), .work 0 .test, .work 0 .fetchThrow,
      .work 0 .isOpen, .work 0 .close, .call (.app 0) (.qpidReceiveStop 0 "exchange")] ++
    List.replicate 9 (.exec (.app 0) .ok)

theorem registry_refines_calls : ∃ s j, qpid.run State.init callsLabels = some s ∧
    (qpid.observe (journal 0)).run (State.init, {}) callsLabels = some (s, j) ∧
    exchanges.run ∅ j.answered = some (s.activeReceivers 0).keys.toFinset ∧
    ∃ c ok, j.answered.getLast? = some ⟨c, ok, .status .qpidSuccess⟩ := by
  have hls : qpid.AllSteps (StartsAndStops 0) State.init callsLabels := by
    refine Machine.allSteps_of_labels fun l hl s => ⟨fun t c h => ?_, fun t p e r h => ?_⟩
    · subst h
      simp [callsLabels, startLabels] at hl
      rcases hl with ⟨rfl, rfl⟩ | ⟨rfl, rfl⟩ <;> simp
    · subst h
      simp [callsLabels, startLabels] at hl
  have hrun : ∃ s, qpid.run State.init callsLabels = some s ∧
      s.frame (.app 0) = .idle (some (.status .qpidSuccess)) := ⟨_, rfl, rfl⟩
  obtain ⟨s, hs, hf⟩ := hrun
  obtain ⟨j, hobs, hanswers, hlast, -⟩ := registry_refines hs hls
  exact ⟨s, j, hs, hobs, hanswers, hlast _ hf⟩

end Comyno
