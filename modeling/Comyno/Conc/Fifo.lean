import Comyno.Conc.Refine

/-!
# Queues seen from outside

A machine has queues, one for each index.  Each step appends one element to a queue, removes the
first one, or leaves the queue alone.  A `Passage` records what has entered a queue and what has
left it.

## Main results

* `Machine.entered_eq` : what has entered a queue is what has left it, in the same order, followed
  by what it contains.
* `Machine.passage_eq` : steps that leave a queue alone leave its record alone.
-/

namespace Conc

/-- What a step does to a queue. -/
inductive QueueAct (τ : Type*) where
  | keep
  | push (a : τ)
  | pop (a : τ)
  deriving DecidableEq, Repr

/-- The queue before and after. -/
inductive QueueAct.Takes {τ : Type*} : List τ → QueueAct τ → List τ → Prop
  | keep {q : List τ} : Takes q .keep q
  | push {q : List τ} {a : τ} : Takes q (.push a) (q ++ [a])
  | pop {q : List τ} {a : τ} : Takes (a :: q) (.pop a) q

/-- What has passed through a queue. -/
structure Passage (τ : Type*) where
  entered : List τ := []
  left : List τ := []
  deriving DecidableEq, Repr

namespace Passage

variable {τ : Type*}

/-- The record after a step. -/
def note (P : Passage τ) : QueueAct τ → Passage τ
  | .keep => P
  | .push a => { P with entered := P.entered ++ [a] }
  | .pop a => { P with left := P.left ++ [a] }

/-- What has entered and not left is in the queue, in this order. -/
def Accounts (P : Passage τ) (q : List τ) : Prop := P.entered = P.left ++ q

theorem Accounts.note {P : Passage τ} {q q' : List τ} {a : QueueAct τ} (h : P.Accounts q)
    (ha : a.Takes q q') : (P.note a).Accounts q' := by
  cases ha with
  | keep => exact h
  | push =>
    change P.entered ++ [_] = P.left ++ (q ++ [_])
    rw [h, List.append_assoc]
  | pop =>
    change P.entered = P.left ++ [_] ++ q'
    rw [h, List.append_assoc, List.singleton_append]

end Passage

namespace Machine

variable {S L ι τ : Type*} {M : Machine S L} {act : S → L → ι → QueueAct τ} {C : S → L → Prop}

/-- `M` with the record of each queue; `act s l i` is what the step `l` from `s` does to the
queue `i`. -/
def passing (M : Machine S L) (act : S → L → ι → QueueAct τ) :
    Machine (S × (ι → Passage τ)) L :=
  M.observe fun P s l _ i => (P i).note (act s l i)

theorem passing_step_eq_some_iff {p p' : S × (ι → Passage τ)} {l : L} :
    (M.passing act).step p l = some p' ↔
      M.step p.1 l = some p'.1 ∧ p'.2 = fun i => (p.2 i).note (act p.1 l i) :=
  observe_step_eq_some_iff

/-- **Nothing overtakes, and nothing is lost or duplicated.** -/
theorem entered_eq (queue : S → ι → List τ) {s₀ s : S} {P : ι → Passage τ} {i : ι}
    (h₀ : queue s₀ i = [])
    (hstep : ∀ s l s', C s l → M.step s l = some s' →
      (act s l i).Takes (queue s i) (queue s' i))
    (h : (M.passing act).ReachableWhere (fun p l => C p.1 l) (s₀, fun _ => {}) (s, P)) :
    (P i).entered = (P i).left ++ queue s i := by
  refine h.invariant (I := fun p => (p.2 i).Accounts (queue p.1 i)) ?_ ?_
  · change ([] : List τ) = [] ++ queue s₀ i
    rw [h₀, List.append_nil]
  · rintro ⟨s, P⟩ l ⟨s', P'⟩ hP hc hst
    obtain ⟨hst, rfl⟩ := passing_step_eq_some_iff.1 hst
    exact hP.note (hstep s l s' hc hst)

/-- A queue that every step leaves alone, by an invariant of the states. -/
theorem passage_eq {I : S → Prop} {s₀ s : S} {P₀ P : ι → Passage τ} {i : ι} (h₀ : I s₀)
    (hI : ∀ s l s', I s → C s l → M.step s l = some s' → act s l i = .keep ∧ I s')
    (h : (M.passing act).ReachableWhere (fun p l => C p.1 l) (s₀, P₀) (s, P)) : P i = P₀ i := by
  have key : I s ∧ P i = P₀ i := by
    refine h.invariant (I := fun p => I p.1 ∧ p.2 i = P₀ i) ⟨h₀, rfl⟩ ?_
    rintro ⟨s, P⟩ l ⟨s', P'⟩ ⟨hs, hP⟩ hc hst
    obtain ⟨hst, rfl⟩ := passing_step_eq_some_iff.1 hst
    obtain ⟨hact, hs'⟩ := hI s l s' hs hc hst
    refine ⟨hs', ?_⟩
    change (P i).note (act s l i) = P₀ i
    rw [hact]
    exact hP
  exact key.2

end Machine

end Conc
