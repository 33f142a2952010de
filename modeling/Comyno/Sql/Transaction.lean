import Mathlib

/-!
# Programs that execute transactions

A session is connected to a store: it sees what is committed, and its open transaction works on a
copy.  A program of type `Transactional σ τ α` is a sequence of calls, each of which may throw;
`faults` says which ones do.  `σ` is what transactions change, and `τ` is what a rollback does not
restore (sequences).

`Works c t m Q` is a triple of `Std.Do`: the program `m` does its work in the transaction, whichever
of its calls throw, and leaves what is committed alone.

## Main results

* `Works.bind`, `Works.call`, `Works.statement` : programs that work are put together from calls.
* `Commits.bind`, `Commits.transact` : a program that works and then commits has either committed
  all of its work, or has thrown and committed nothing.
-/

namespace Sql

open Std.Do

set_option mvcgen.warning false

/-- What a call throws. -/
inductive Exception where
  /-- An exception derived from `std::exception`. -/
  | std (what : String)
  | other
  deriving DecidableEq, Repr

/-- A connection with its open transaction. -/
structure Session (σ τ : Type) where
  committed : σ
  /-- What the open transaction sees; without one, what is committed. -/
  work : σ
  /-- What is not part of transactions. -/
  outside : τ
  /-- The number of calls so far. -/
  calls : ℕ := 0

/-- A program that executes transactions. -/
abbrev Transactional (σ τ : Type) := ExceptT Exception (StateM (Session σ τ))

variable {σ τ α β : Type}

/-- The transaction is gone, and with it its work. -/
def Session.rollback (s : Session σ τ) : Session σ τ := { s with work := s.committed }

/-- A call, which does what `m` does unless it throws. -/
def call (faults : ℕ → Option String) (m : Transactional σ τ α) : Transactional σ τ α := do
  let s ← get
  set { s with calls := s.calls + 1 }
  match faults s.calls with
  | some what => throw (.std what)
  | none => m

/-- A transaction is opened; it sees what is committed. -/
def start : Transactional σ τ Unit := modify Session.rollback

/-- A statement is executed in the transaction; `f` also says what happens outside of it. -/
def statement (f : σ → τ → Except String (α × σ) × τ) : Transactional σ τ α := do
  let s ← get
  match f s.work s.outside with
  | (.ok (a, work), outside) =>
    set { s with work := work, outside := outside }
    pure a
  | (.error what, outside) =>
    set { s with outside := outside }
    throw (.std what)

/-- The transaction is committed. -/
def commit : Transactional σ τ Unit := modify fun s => { s with committed := s.work }

/-- The transaction is a local object of `m`: whether `m` returns or throws, it is destroyed, and
rolled back unless it was committed. -/
def transact (m : Transactional σ τ α) : Transactional σ τ α :=
  ExceptT.mk do
    let r ← m.run
    modify Session.rollback
    pure r

/-- A triple says how a run ends. -/
theorem triple_iff {P : Session σ τ → Prop} {m : Transactional σ τ α}
    {Q : α → Session σ τ → Prop} {E : Exception → Session σ τ → Prop} :
    ⦃fun s => ⌜P s⌝⦄ m ⦃post⟨fun a s => ⌜Q a s⌝, fun e s => ⌜E e s⌝⟩⦄ ↔
      ∀ s, P s → match m.run.run s with
        | (.ok a, s') => Q a s'
        | (.error e, s') => E e s' := by
  refine forall_congr' fun s => imp_congr_right fun _ => ?_
  let R : PostCond (Except Exception α) (.arg (Session σ τ) .pure) :=
    (fun r s' => ⌜match r with
      | .ok a => Q a s'
      | .error e => E e s'⌝, PUnit.unit)
  have h : (wp⟦m.run⟧ R s).down = (wp⟦m⟧ _ s).down :=
    congrArg ULift.down (congrFun (WP.ExceptT_run m) s)
  refine Iff.of_eq (h.symm.trans ?_)
  change (match (m.run.run s).1 with
    | .ok a => Q a (m.run.run s).2
    | .error e => E e (m.run.run s).2) = _
  rcases m.run.run s with ⟨r | a, s'⟩ <;> rfl

/-- A rollback at the end restores what the transaction sees. -/
theorem triple_transact {P : Session σ τ → Prop} {m : Transactional σ τ α} {Q : α → σ → Prop}
    {E : Exception → σ → Prop} (h : ⦃fun s => ⌜P s⌝⦄ m
      ⦃post⟨fun a s => ⌜Q a s.committed⌝, fun e s => ⌜E e s.committed⌝⟩⦄) :
    ⦃fun s => ⌜P s⌝⦄ transact m ⦃post⟨fun a s => ⌜Q a s.committed ∧ s.work = s.committed⌝,
      fun e s => ⌜E e s.committed ∧ s.work = s.committed⌝⟩⦄ := by
  rw [triple_iff] at *
  intro s hs
  have hrun : (transact m).run.run s =
      ((m.run.run s).1, (m.run.run s).2.rollback) := rfl
  have hm := h s hs
  rw [hrun]
  generalize m.run.run s = r at hm ⊢
  obtain ⟨e | a, s'⟩ := r <;> exact ⟨hm, rfl⟩

/-- From a transaction that sees `t`, the program returns a value and leaves work that satisfy `Q`,
or it throws an exception derived from `std::exception`; what is committed stays `c`. -/
def Works (c t : σ) (m : Transactional σ τ α) (Q : α → σ → Prop) : Prop :=
  ⦃fun s => ⌜s.committed = c ∧ s.work = t⌝⦄ m
  ⦃post⟨fun a s => ⌜s.committed = c ∧ Q a s.work⌝,
    fun e s => ⌜(∃ what, e = .std what) ∧ s.committed = c⌝⟩⦄

namespace Works

variable {c t : σ} {m : Transactional σ τ α} {Q Q' : α → σ → Prop} {faults : ℕ → Option String}

theorem pure {a : α} (h : Q a t) : Works c t (Pure.pure a : Transactional σ τ α) Q := by
  unfold Works
  mvcgen
  simp_all

theorem throw {what : String} : Works c t (throw (.std what) : Transactional σ τ α) Q := by
  unfold Works
  mvcgen
  case vc1 hs => exact ⟨⟨what, rfl⟩, hs.1⟩

theorem mono (h : Works c t m Q) (hQ : ∀ a t', Q a t' → Q' a t') : Works c t m Q' := by
  unfold Works at *
  mvcgen [h]
  all_goals simp_all

theorem bind {f : α → Transactional σ τ β} {R : β → σ → Prop} (h : Works c t m Q)
    (hf : ∀ a t', Q a t' → Works c t' (f a) R) : Works c t (m >>= f) R := by
  unfold Works at *
  mvcgen [h]
  intro s hc hQ
  exact hf _ s.work hQ s ⟨hc, rfl⟩

/-- A call that throws does nothing else. -/
theorem call (h : Works c t m Q) : Works c t (Sql.call faults m) Q := by
  unfold Works at *
  mvcgen [Sql.call, h]
  simp_all

theorem start : Works c t (Sql.start : Transactional σ τ Unit) fun _ t' => t' = c := by
  unfold Works
  mvcgen [Sql.start]
  case vc1 hs _ => exact ⟨hs.1, hs.1⟩

/-- A statement that fails leaves the work as it was. -/
theorem statement {f : σ → τ → Except String (α × σ) × τ}
    (h : ∀ o a t', (f t o).1 = .ok (a, t') → Q a t') : Works c t (Sql.statement f) Q := by
  unfold Works
  mvcgen [Sql.statement]
  case vc1.h_1 hs a work outside hf =>
    obtain ⟨hc, rfl⟩ := hs
    exact ⟨hc, h _ a work (by rw [hf])⟩
  case vc2.h_2 hs _ _ _ =>
    exact ⟨⟨_, rfl⟩, hs.1⟩

end Works

/-- From a transaction that sees `t`, the program returns a value and commits what satisfies `Q`, or
it throws an exception derived from `std::exception` and commits nothing. -/
def Commits (c t : σ) (m : Transactional σ τ α) (Q : α → σ → Prop) : Prop :=
  ⦃fun s => ⌜s.committed = c ∧ s.work = t⌝⦄ m
  ⦃post⟨fun a s => ⌜Q a s.committed⌝,
    fun e s => ⌜(∃ what, e = .std what) ∧ s.committed = c⌝⟩⦄

namespace Commits

variable {c t : σ} {m : Transactional σ τ α} {Q : α → σ → Prop} {faults : ℕ → Option String}

/-- The work comes before the commit. -/
theorem bind {f : α → Transactional σ τ β} {R : β → σ → Prop} (h : Works c t m Q)
    (hf : ∀ a t', Q a t' → Commits c t' (f a) R) : Commits c t (m >>= f) R := by
  unfold Works Commits at *
  mvcgen [h]
  intro s hc hQ
  exact hf _ s.work hQ s ⟨hc, rfl⟩

/-- A commit that throws commits nothing. -/
theorem commit {a : α} (h : Q a t) :
    Commits c t (do call faults Sql.commit; pure a : Transactional σ τ α) Q := by
  unfold Commits
  mvcgen [call, Sql.commit]
  case vc1.h_1 hs _ _ => exact ⟨⟨_, rfl⟩, hs.1⟩
  case vc2.h_2 hs _ _ =>
    obtain ⟨-, rfl⟩ := hs
    exact h

/-- **Work is committed as a whole, or not at all**, and the transaction is gone at the end. -/
theorem transact (h : Commits c t m Q) :
    ⦃fun s => ⌜s.committed = c ∧ s.work = t⌝⦄ Sql.transact m
    ⦃post⟨fun a s => ⌜Q a s.committed ∧ s.work = s.committed⌝,
      fun e s => ⌜((∃ what, e = .std what) ∧ s.committed = c) ∧ s.work = s.committed⌝⟩⦄ :=
  triple_transact (P := fun s => s.committed = c ∧ s.work = t) (Q := Q)
    (E := fun e t => (∃ what, e = .std what) ∧ t = c) h

/-- A handler for the exceptions derived from `std::exception` lets none escape. -/
theorem handle {b : α} (h : Commits c t m Q) (hb : Q b c) :
    ⦃fun s => ⌜s.committed = c ∧ s.work = t⌝⦄
    tryCatch (Sql.transact m) (fun e => match e with
      | .std _ => pure b
      | .other => throw e)
    ⦃post⟨fun a s => ⌜Q a s.committed ∧ s.work = s.committed⌝, fun _ _ => ⌜False⌝⟩⦄ := by
  have h := h.transact
  mvcgen [h]
  case vc2 r =>
    intro hQ hwork
    exact ⟨hQ, hwork⟩
  case vc3 hs =>
    obtain ⟨⟨-, hc⟩, hwork⟩ := hs
    exact ⟨hc ▸ hb, hwork⟩
  case vc4 hs =>
    obtain ⟨⟨⟨what, hwhat⟩, -⟩, -⟩ := hs
    cases hwhat

end Commits

/-! ### Runs without faults -/

variable {s u : Session σ τ} {m : Transactional σ τ α} {a : α} {faults : ℕ → Option String}

theorem run_bind {f : α → Transactional σ τ β} {r : Except Exception β × Session σ τ}
    (h : m.run.run s = (.ok a, u)) (hf : (f a).run.run u = r) : (m >>= f).run.run s = r := by
  change (ExceptT.bindCont f (m.run.run s).1).run (m.run.run s).2 = r
  rw [h]
  exact hf

theorem run_call {r : Except Exception α × Session σ τ} (hfaults : faults s.calls = none)
    (h : m.run.run { s with calls := s.calls + 1 } = r) : (call faults m).run.run s = r := by
  refine run_bind (u := s) rfl (run_bind rfl ?_)
  rw [hfaults]
  exact h

theorem run_statement {f : σ → τ → Except String (α × σ) × τ} {work : σ} {outside : τ}
    (h : f s.work s.outside = (.ok (a, work), outside)) :
    (statement f).run.run s = (.ok a, { s with work := work, outside := outside }) := by
  refine run_bind (u := s) rfl ?_
  rw [h]
  exact run_bind rfl rfl

/-- A block that returns is not handled. -/
theorem run_tryCatch {handler : Exception → Transactional σ τ α} (h : m.run.run s = (.ok a, u)) :
    (tryCatch (transact m) handler).run.run s = (.ok a, u.rollback) := by
  have ht : (transact m).run.run s = ((m.run.run s).1, (m.run.run s).2.rollback) := rfl
  rw [h] at ht
  rw [ExceptT.run_tryCatch, StateT.run_bind, ht]
  rfl

end Sql
