import Comyno.Conc.Machine

/-!
# Progress

A machine need not take a step at all, so progress is stated as what it can still do: from here, by
steps of a certain kind, a state with `Q` can be reached.  The condition on the steps says on what
the progress may rely; the fewer steps satisfy it, the stronger the statement.

## Main definitions

* `Machine.CanReach C s Q` : a run from `s` whose steps all satisfy `C` leads to a state with `Q`.

## Main results

* `Machine.CanReach.of_rank` : progress by a rank that can always be lowered.
* `Machine.ReachableWhere.keeps_or` : what the steps of a run keep until they reach `Q`.
* `Machine.CanReach.of_keeps` : progress of one part of the machine may wait for a run of the rest.
-/

namespace Conc.Machine

variable {S L : Type*} {M : Machine S L} {C : S → L → Prop} {s s' : S} {Q R : S → Prop}

/-- From `s` the machine can go on to a state with `Q`, by steps that satisfy `C`. -/
def CanReach (M : Machine S L) (C : S → L → Prop) (s : S) (Q : S → Prop) : Prop :=
  ∃ s', M.ReachableWhere C s s' ∧ Q s'

namespace CanReach

theorem here (h : Q s) : M.CanReach C s Q := ⟨s, .refl s, h⟩

theorem head {l : L} (hc : C s l) (hst : M.step s l = some s') (h : M.CanReach C s' Q) :
    M.CanReach C s Q := by
  obtain ⟨s'', hr, hQ⟩ := h
  exact ⟨s'', .head hc hst hr, hQ⟩

theorem of_reachable (hr : M.ReachableWhere C s s') (h : M.CanReach C s' Q) :
    M.CanReach C s Q := by
  obtain ⟨s'', hr', hQ⟩ := h
  exact ⟨s'', hr.trans hr', hQ⟩

theorem trans (h : M.CanReach C s Q)
    (hQ : ∀ s', M.ReachableWhere C s s' → Q s' → M.CanReach C s' R) : M.CanReach C s R := by
  obtain ⟨s', hr, hs'⟩ := h
  exact of_reachable hr (hQ s' hr hs')

/-- Progress that keeps what `K` says of the two ends. -/
theorem trans_keeping {K : S → S → Prop} (hK : ∀ s s' s'', K s s' → K s' s'' → K s s'')
    (h : M.CanReach C s fun s' => K s s' ∧ Q s')
    (hQ : ∀ s', K s s' → Q s' → M.CanReach C s' fun s'' => K s' s'' ∧ R s'') :
    M.CanReach C s fun s'' => K s s'' ∧ R s'' := by
  obtain ⟨s', hr, hs, hs'⟩ := h
  obtain ⟨s'', hr', hs'', hR⟩ := hQ s' hs hs'
  exact ⟨s'', ReachableWhere.trans hr hr', hK _ _ _ hs hs'', hR⟩

theorem mono {C' : S → L → Prop} (h : M.CanReach C s Q) (hC : ∀ s l, C s l → C' s l)
    (hQ : ∀ s', M.ReachableWhere C s s' → Q s' → R s') : M.CanReach C' s R := by
  obtain ⟨s', hr, hs'⟩ := h
  exact ⟨s', hr.mono hC, hQ s' hr hs'⟩

/-- **Progress by a rank.**  If a state of rank `n` can always go on to `Q` or to a smaller rank,
then `Q` can be reached. -/
theorem of_rank {P : ℕ → S → Prop}
    (h : ∀ n s, P n s → M.CanReach C s fun s' => Q s' ∨ ∃ m < n, P m s') {n : ℕ} (hs : P n s) :
    M.CanReach C s Q := by
  induction n using Nat.strongRecOn generalizing s with
  | ind n ih =>
    refine (h n s hs).trans fun s' _ hs' => ?_
    rcases hs' with hQ | ⟨m, hm, hP⟩
    · exact here hQ
    · exact ih m hm hP

end CanReach

/-- A run keeps what each of its steps keeps, unless it comes to `Q`. -/
theorem ReachableWhere.keeps_or {I : S → Prop} (h : M.ReachableWhere C s s') (hs : I s)
    (hstep : ∀ s l s', I s → C s l → M.step s l = some s' → I s' ∨ Q s') :
    I s' ∨ M.CanReach C s Q := by
  induction h with
  | refl => exact Or.inl hs
  | tail hr hst ih =>
    obtain ⟨l, hc, hst⟩ := hst
    rcases ih with hI | hQ
    · rcases hstep _ _ _ hI hc hst with hI' | hQ
      · exact Or.inl hI'
      · exact Or.inr ⟨_, ReachableWhere.tail hr hc hst, hQ⟩
    · exact Or.inr hQ

/-- A part of the machine that waits in `I` may let the rest of the machine go on first. -/
theorem CanReach.of_keeps {I : S → Prop} (hr : M.ReachableWhere C s s') (hs : I s)
    (hstep : ∀ s l s', I s → C s l → M.step s l = some s' → I s' ∨ Q s')
    (h : I s' → M.CanReach C s' Q) : M.CanReach C s Q := by
  rcases hr.keeps_or hs hstep with hI | hQ
  · exact of_reachable hr (h hI)
  · exact hQ

end Conc.Machine
