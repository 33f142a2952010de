import Comyno.Conc.Machine
import Mathlib.Data.List.Infix
import Mathlib.Logic.Function.Iterate

/-!
# Machines that follow a sequential program

One part of a concurrent machine may be a sequential program: a function `next` on its states, whose
`n`-th iterate is where it is after `n` steps.  The machine decides when that program takes its next
step, and nothing else about it.

## Main definitions

* `Machine.Follows M C R next` : through the relation `R`, a step of `M` is one step of the
  sequential program or none.
* `Grows next record` : the record of the sequential program is never cut.

## Main results

* `Machine.Follows.exists_iterate` : a reachable state shows a state of the sequential program.
* `Machine.Follows.comparable` : of the records of two reachable states, one continues the other.
-/

namespace Conc

variable {S L T A : Type*}

/-- The record of a sequential program only grows. -/
def Grows (next : T → T) (record : T → List A) : Prop := ∀ t, record t <+: record (next t)

namespace Grows

variable {next : T → T} {record : T → List A}

theorem iterate (h : Grows next record) (n : ℕ) (t : T) : record t <+: record (next^[n] t) := by
  induction n with
  | zero => exact List.prefix_refl _
  | succ n ih =>
    rw [Function.iterate_succ_apply']
    exact ih.trans (h _)

theorem of_le (h : Grows next record) {m n : ℕ} (hmn : m ≤ n) (t : T) :
    record (next^[m] t) <+: record (next^[n] t) := by
  obtain ⟨k, rfl⟩ := Nat.exists_eq_add_of_le hmn
  rw [Nat.add_comm, Function.iterate_add_apply]
  exact h.iterate k _

/-- What is recorded at some time is comparable with what is recorded at any other time. -/
theorem comparable (h : Grows next record) (m n : ℕ) (t : T) :
    record (next^[m] t) <+: record (next^[n] t) ∨ record (next^[n] t) <+: record (next^[m] t) :=
  (le_total m n).imp (h.of_le · t) (h.of_le · t)

/-- Where the program stops, everything has been recorded. -/
theorem prefix_of_fixed (h : Grows next record) {N : ℕ} {t : T} (hfix : next (next^[N] t) =
    next^[N] t) (n : ℕ) : record (next^[n] t) <+: record (next^[N] t) := by
  rcases le_total n N with hn | hn
  · exact h.of_le hn t
  · obtain ⟨k, rfl⟩ := Nat.exists_eq_add_of_le hn
    rw [Nat.add_comm, Function.iterate_add_apply, Function.iterate_fixed hfix]

end Grows

/-- Two states at which the program has stopped are the same. -/
theorem eq_of_fixed {next : T → T} {t : T} {m n : ℕ} (hm : next (next^[m] t) = next^[m] t)
    (hn : next (next^[n] t) = next^[n] t) : next^[m] t = next^[n] t := by
  rcases le_total m n with h | h <;> obtain ⟨k, rfl⟩ := Nat.exists_eq_add_of_le h
  · rw [Nat.add_comm, Function.iterate_add_apply, Function.iterate_fixed hm]
  · rw [Nat.add_comm, Function.iterate_add_apply, Function.iterate_fixed hn]

namespace Machine

/-- A step of `M` that satisfies `C` is one step of `next` or none, through the relation `R`. -/
def Follows (M : Machine S L) (C : S → L → Prop) (R : S → T → Prop) (next : T → T) : Prop :=
  ∀ s l s' t, R s t → C s l → M.step s l = some s' → R s' t ∨ R s' (next t)

namespace Follows

variable {M : Machine S L} {C : S → L → Prop} {R : S → T → Prop} {next : T → T}

/-- **A machine that follows a sequential program shows one of its states.** -/
theorem exists_iterate (hf : Follows M C R next) {s₀ s : S} {t₀ : T} (h₀ : R s₀ t₀)
    (h : M.ReachableWhere C s₀ s) : ∃ n, R s (next^[n] t₀) := by
  refine h.invariant (I := fun s => ∃ n, R s (next^[n] t₀)) ⟨0, h₀⟩ ?_
  rintro s l s' ⟨n, hR⟩ hc hst
  rcases hf s l s' _ hR hc hst with h | h
  · exact ⟨n, h⟩
  · exact ⟨n + 1, by rwa [Function.iterate_succ_apply']⟩

/-- **The schedule decides how far the sequential program gets, not what it does.** -/
theorem comparable (hf : Follows M C R next) {record : T → List A} (hg : Grows next record)
    {f : S → List A} (hrecord : ∀ s t, R s t → f s = record t) {s₀ s s' : S} {t₀ : T}
    (h₀ : R s₀ t₀) (h : M.ReachableWhere C s₀ s) (h' : M.ReachableWhere C s₀ s') :
    f s <+: f s' ∨ f s' <+: f s := by
  obtain ⟨n, hn⟩ := hf.exists_iterate h₀ h
  obtain ⟨m, hm⟩ := hf.exists_iterate h₀ h'
  rw [hrecord _ _ hn, hrecord _ _ hm]
  exact hg.comparable n m t₀

end Follows

end Machine

end Conc
