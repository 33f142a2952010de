import Mathlib.Logic.Relation
import Mathlib.Data.List.Basic

/-!
# Machines: executable transition systems

A concurrent program is modelled as a *machine*: a partial function that takes a state and a
label to the next state.  The label says which thread moves and how every choice outside that
thread's control falls (a call returns or throws, a message arrives), so one label has at most
one outcome, and a run is a list of labels that can be executed.

## Main definitions

* `Machine S L` : a step function `S → L → Option S`.
* `Machine.ReachableWhere C s₀ s` : `s` is reachable from `s₀` by steps that all satisfy `C`;
  `Machine.Reachable` puts no condition on the steps.
* `Machine.run s ls` : executing the labels `ls` in order.
* `Machine.Always P s ls` : every state visited by the run `ls` satisfies `P`.
* `Machine.AllSteps C s ls` : every step taken by the run `ls` satisfies `C`.

## Main results

* `Machine.ReachableWhere.invariant` : the induction rule for invariants.
* `Machine.always_iff_allSteps` : a property that steps satisfying `C` keep and every other step
  breaks at once holds throughout a run exactly when all its steps satisfy `C`.
* `Machine.countP_add_le` : a potential bounds how often labels of one kind occur in a run.
* `Machine.measure_eq_iff` : a measure that only certain steps increase tells whether a run takes
  one of them.
* `Machine.flag_of_run` : an invariant with a flag that certain steps raise tells the same.
-/

namespace Conc

/-- A machine with states `S` and labels `L`. -/
structure Machine (S L : Type*) where
  /-- `step s l = some s'`: in `s` the label `l` can be executed and leads to `s'`. -/
  step : S → L → Option S

namespace Machine

variable {S L : Type*} (M : Machine S L)

/-- One step whose label satisfies `C` where it is taken. -/
def StepWhere (C : S → L → Prop) (s s' : S) : Prop := ∃ l, C s l ∧ M.step s l = some s'

/-- `s` is reachable from `s₀` by steps that all satisfy `C`. -/
def ReachableWhere (C : S → L → Prop) (s₀ s : S) : Prop :=
  Relation.ReflTransGen (M.StepWhere C) s₀ s

/-- `s` is reachable from `s₀`. -/
abbrev Reachable (s₀ s : S) : Prop := M.ReachableWhere (fun _ _ => True) s₀ s

/-- The label `l` can be executed in `s`. -/
def Enabled (s : S) (l : L) : Prop := ∃ s', M.step s l = some s'

/-- Execute the labels `ls` in order. -/
def run : S → List L → Option S
  | s, [] => some s
  | s, l :: ls => (M.step s l).bind fun s' => run s' ls

/-- Every state visited by the run `ls` from `s`, the first and the last included, satisfies
`P`. -/
def Always (P : S → Prop) : S → List L → Prop
  | s, [] => P s
  | s, l :: ls => P s ∧ ∀ s', M.step s l = some s' → Always P s' ls

/-- Every step taken by the run `ls` from `s` satisfies `C`. -/
def AllSteps (C : S → L → Prop) : S → List L → Prop
  | _, [] => True
  | s, l :: ls => ∀ s', M.step s l = some s' → C s l ∧ AllSteps C s' ls

variable {M}

/-! ### Reachability under a condition on the steps -/

namespace ReachableWhere

variable {C : S → L → Prop}

@[refl] theorem refl (s : S) : M.ReachableWhere C s s := Relation.ReflTransGen.refl

theorem tail {s₀ s s' : S} {l : L} (h : M.ReachableWhere C s₀ s) (hc : C s l)
    (hst : M.step s l = some s') : M.ReachableWhere C s₀ s' :=
  Relation.ReflTransGen.tail h ⟨l, hc, hst⟩

theorem head {s₀ s s' : S} {l : L} (hc : C s₀ l) (hst : M.step s₀ l = some s)
    (h : M.ReachableWhere C s s') : M.ReachableWhere C s₀ s' :=
  Relation.ReflTransGen.head ⟨l, hc, hst⟩ h

theorem trans {s₁ s₂ s₃ : S} (h₁ : M.ReachableWhere C s₁ s₂) (h₂ : M.ReachableWhere C s₂ s₃) :
    M.ReachableWhere C s₁ s₃ :=
  Relation.ReflTransGen.trans h₁ h₂

/-- A weaker condition on the steps reaches at least as much. -/
theorem mono {C' : S → L → Prop} (hC : ∀ s l, C s l → C' s l) {s₀ s : S}
    (h : M.ReachableWhere C s₀ s) : M.ReachableWhere C' s₀ s :=
  Relation.ReflTransGen.mono (fun _ _ ⟨l, hc, hst⟩ => ⟨l, hC _ _ hc, hst⟩) _ _ h

/-- Reachable states satisfy every predicate that holds initially and is preserved by every
step satisfying `C`. -/
theorem invariant {I : S → Prop} {s₀ s : S} (h : M.ReachableWhere C s₀ s) (h₀ : I s₀)
    (hstep : ∀ s l s', I s → C s l → M.step s l = some s' → I s') : I s := by
  induction h with
  | refl => exact h₀
  | tail _ hst ih =>
    obtain ⟨l, hc, hl⟩ := hst
    exact hstep _ _ _ ih hc hl

/-- A second invariant may rely on a first one that is already known. -/
theorem invariant_of {I J : S → Prop} {s₀ s : S} (h : M.ReachableWhere C s₀ s)
    (hI : ∀ s, M.ReachableWhere C s₀ s → I s) (h₀ : J s₀)
    (hstep : ∀ s l s', I s → J s → C s l → M.step s l = some s' → J s') : J s := by
  have key : M.ReachableWhere C s₀ s ∧ J s := by
    induction h with
    | refl => exact ⟨refl _, h₀⟩
    | tail hr hst ih =>
      obtain ⟨l, hc, hl⟩ := hst
      exact ⟨ih.1.tail hc hl, hstep _ _ _ (hI _ ih.1) ih.2 hc hl⟩
  exact key.2

end ReachableWhere

/-! ### Runs -/

@[simp] theorem run_nil (s : S) : M.run s [] = some s := rfl

@[simp] theorem run_cons (s : S) (l : L) (ls : List L) :
    M.run s (l :: ls) = (M.step s l).bind fun s' => M.run s' ls := rfl

theorem run_append (s : S) (ls ls' : List L) :
    M.run s (ls ++ ls') = (M.run s ls).bind fun s' => M.run s' ls' := by
  induction ls generalizing s with
  | nil => rfl
  | cons l ls ih => simp [ih, Option.bind_assoc]

/-- A run whose steps satisfy `C` shows that its last state is reachable under `C`. -/
theorem reachableWhere_of_run {C : S → L → Prop} {s s' : S} {ls : List L}
    (h : M.run s ls = some s') (hC : M.AllSteps C s ls) : M.ReachableWhere C s s' := by
  induction ls generalizing s with
  | nil =>
    cases h
    exact ReachableWhere.refl _
  | cons l ls ih =>
    obtain ⟨s₁, hst, hrun⟩ := Option.bind_eq_some_iff.1 h
    obtain ⟨hc, hrest⟩ := hC s₁ hst
    exact ReachableWhere.head hc hst (ih hrun hrest)

/-- A condition that labels satisfy in every state is checked on the list of labels. -/
theorem allSteps_of_labels {C : S → L → Prop} {s : S} {ls : List L} (h : ∀ l ∈ ls, ∀ s, C s l) :
    M.AllSteps C s ls := by
  induction ls generalizing s with
  | nil => trivial
  | cons l ls ih =>
    intro s' _
    exact ⟨h l List.mem_cons_self s, ih fun l' hl' => h l' (List.mem_cons_of_mem _ hl')⟩

/-- The converse, for a run. -/
theorem labels_of_allSteps {p : L → Prop} {s s' : S} {ls : List L} (h : M.run s ls = some s')
    (hp : M.AllSteps (fun _ l => p l) s ls) : ∀ l ∈ ls, p l := by
  induction ls generalizing s with
  | nil => simp
  | cons l ls ih =>
    obtain ⟨s₁, hst, hrun⟩ := Option.bind_eq_some_iff.1 h
    obtain ⟨hl, hrest⟩ := hp s₁ hst
    exact List.forall_mem_cons.2 ⟨hl, ih hrun hrest⟩

/-- A condition that follows from another one by an invariant. -/
theorem allSteps_of_invariant {I : S → Prop} {D C : S → L → Prop}
    (hI : ∀ s l s', I s → D s l → M.step s l = some s' → C s l ∧ I s') {s : S} {ls : List L}
    (hs : I s) (hD : M.AllSteps D s ls) : M.AllSteps C s ls := by
  induction ls generalizing s with
  | nil => trivial
  | cons l ls ih =>
    intro s' hst
    obtain ⟨hd, hrest⟩ := hD s' hst
    obtain ⟨hc, hs'⟩ := hI _ _ _ hs hd hst
    exact ⟨hc, ih hs' hrest⟩

/-- The steps of a run that begins with `l`. -/
theorem allSteps_cons_iff {C : S → L → Prop} {s s' : S} {l : L} {ls : List L}
    (h : M.step s l = some s') : M.AllSteps C s (l :: ls) ↔ C s l ∧ M.AllSteps C s' ls := by
  constructor
  · exact fun hall => hall s' h
  · intro hall s₂ hst
    cases h.symm.trans hst
    exact hall

/-- A condition that is decided step by step is decided for a run. -/
instance decidableAllSteps {C : S → L → Prop} [∀ s l, Decidable (C s l)] :
    (s : S) → (ls : List L) → Decidable (M.AllSteps C s ls)
  | _, [] => .isTrue trivial
  | s, l :: ls =>
    match h : M.step s l with
    | none => .isTrue fun s' hst => by simp [h] at hst
    | some s' =>
      have : Decidable (M.AllSteps C s' ls) := decidableAllSteps s' ls
      decidable_of_iff _ (allSteps_cons_iff h).symm

theorem allSteps_append {C : S → L → Prop} {s s' : S} {ls ls' : List L}
    (h : M.run s ls = some s') (h₁ : M.AllSteps C s ls) (h₂ : M.AllSteps C s' ls') :
    M.AllSteps C s (ls ++ ls') := by
  induction ls generalizing s with
  | nil => cases h; exact h₂
  | cons l ls ih =>
    intro s₁ hst
    obtain ⟨hc, hrest⟩ := h₁ s₁ hst
    refine ⟨hc, ih ?_ hrest⟩
    simpa [hst] using h

theorem reachable_of_run {s s' : S} {ls : List L} (h : M.run s ls = some s') :
    M.Reachable s s' :=
  reachableWhere_of_run h (allSteps_of_labels fun _ _ _ => trivial)

/-- A part of the state that certain labels keep is kept by a run of such labels. -/
theorem eq_of_run {A : Type*} {f : S → A} {p : L → Prop}
    (hf : ∀ s l s', p l → M.step s l = some s' → f s' = f s) {s s' : S} {ls : List L}
    (h : M.run s ls = some s') (hp : ∀ l ∈ ls, p l) : f s' = f s := by
  induction ls generalizing s with
  | nil => cases h; rfl
  | cons l ls ih =>
    obtain ⟨s₁, hst, hrun⟩ := Option.bind_eq_some_iff.1 h
    rw [ih hrun fun l hl => hp l (List.mem_cons_of_mem _ hl)]
    exact hf _ _ _ (hp l List.mem_cons_self) hst

/-- Every reachable state is the last state of a run. -/
theorem ReachableWhere.exists_run {C : S → L → Prop} {s s' : S} (h : M.ReachableWhere C s s') :
    ∃ ls, M.run s ls = some s' ∧ M.AllSteps C s ls := by
  induction h using Relation.ReflTransGen.head_induction_on with
  | refl => exact ⟨[], rfl, trivial⟩
  | head hst _ ih =>
    obtain ⟨l, hc, hl⟩ := hst
    obtain ⟨ls, hrun, hall⟩ := ih
    refine ⟨l :: ls, by simpa [hl] using hrun, fun s₁ hs₁ => ?_⟩
    cases hl.symm.trans hs₁
    exact ⟨hc, hall⟩

/-- What holds in all states that steps satisfying `C` reach holds throughout a run of such
steps. -/
theorem always_of_reachableWhere {C : S → L → Prop} {P : S → Prop} {s : S} {ls : List L}
    (h : ∀ s', M.ReachableWhere C s s' → P s') (hC : M.AllSteps C s ls) : M.Always P s ls := by
  induction ls generalizing s with
  | nil => exact h s (ReachableWhere.refl s)
  | cons l ls ih =>
    refine ⟨h s (ReachableWhere.refl s), fun s' hst => ?_⟩
    obtain ⟨hc, hrest⟩ := hC s' hst
    exact ih (fun s'' hr => h s'' (ReachableWhere.head hc hst hr)) hrest

/-- **Properties broken by exactly one kind of step.**  The steps of a run satisfy `D`, and `J`
holds of every state.  A step that satisfies `C` keeps `P`, and any other step breaks it.  Then `P`
holds throughout the run exactly when every step of the run satisfies `C`. -/
theorem always_iff_allSteps {J P : S → Prop} {D C : S → L → Prop}
    (hJ : ∀ s l s', J s → D s l → M.step s l = some s' → J s')
    (hkeep : ∀ s l s', J s → P s → D s l → C s l → M.step s l = some s' → P s')
    (hbreak : ∀ s l s', J s → P s → D s l → ¬ C s l → M.step s l = some s' → ¬ P s')
    {s : S} (hJs : J s) (hPs : P s) {ls : List L} (hD : M.AllSteps D s ls) :
    M.Always P s ls ↔ M.AllSteps C s ls := by
  induction ls generalizing s with
  | nil => exact iff_of_true hPs trivial
  | cons l ls ih =>
    constructor
    · rintro ⟨-, hrest⟩ s' hst
      obtain ⟨hd, hD'⟩ := hD s' hst
      have hPs' : P s' := by
        have := hrest s' hst
        cases ls with
        | nil => exact this
        | cons _ _ => exact this.1
      have hc : C s l := by
        by_contra hc
        exact hbreak s l s' hJs hPs hd hc hst hPs'
      exact ⟨hc, (ih (hJ _ _ _ hJs hd hst) hPs' hD').1 (hrest s' hst)⟩
    · intro h
      refine ⟨hPs, fun s' hst => ?_⟩
      obtain ⟨hc, hrest⟩ := h s' hst
      obtain ⟨hd, hD'⟩ := hD s' hst
      exact (ih (hJ _ _ _ hJs hd hst) (hkeep _ _ _ hJs hPs hd hc hst) hD').2 hrest

/-- **Counting by a potential.**  If executing a label of kind `p` uses up one unit of the
potential `μ` and no other step raises it, a run whose steps satisfy `D` executes at most `μ s`
labels of kind `p`. -/
theorem countP_add_le {I : S → Prop} {D : S → L → Prop} {p : L → Bool} {μ : S → ℕ}
    (hI : ∀ s l s', I s → D s l → M.step s l = some s' → I s')
    (hμ : ∀ s l s', I s → D s l → M.step s l = some s' → (if p l then 1 else 0) + μ s' ≤ μ s)
    {s s' : S} {ls : List L} (hs : I s) (h : M.run s ls = some s') (hD : M.AllSteps D s ls) :
    ls.countP p + μ s' ≤ μ s := by
  induction ls generalizing s with
  | nil => cases h; simp
  | cons l ls ih =>
    obtain ⟨s₁, hst, hrun⟩ := Option.bind_eq_some_iff.1 h
    obtain ⟨hd, hrest⟩ := hD s₁ hst
    have h₁ := ih (hI _ _ _ hs hd hst) hrun hrest
    have h₂ := hμ _ _ _ hs hd hst
    rw [List.countP_cons]
    omega

/-- **Counting by a measure.**  `μ` grows at the steps that violate `C` and is kept by all others.
Then a run whose steps satisfy `D` keeps `μ` exactly when all its steps satisfy `C`. -/
theorem measure_eq_iff {I : S → Prop} {D C : S → L → Prop} {μ : S → ℕ}
    (hI : ∀ s l s', I s → D s l → M.step s l = some s' → I s')
    (hkeep : ∀ s l s', I s → D s l → C s l → M.step s l = some s' → μ s' = μ s)
    (hgrow : ∀ s l s', I s → D s l → ¬ C s l → M.step s l = some s' → μ s < μ s')
    {s s' : S} {ls : List L} (hs : I s) (h : M.run s ls = some s') (hD : M.AllSteps D s ls) :
    μ s ≤ μ s' ∧ (μ s' = μ s ↔ M.AllSteps C s ls) := by
  induction ls generalizing s with
  | nil =>
    cases h
    exact ⟨Nat.le_refl _, iff_of_true rfl trivial⟩
  | cons l ls ih =>
    obtain ⟨s₁, hst, hrun⟩ := Option.bind_eq_some_iff.1 h
    obtain ⟨hd, hrest⟩ := hD s₁ hst
    obtain ⟨hle, hiff⟩ := ih (hI _ _ _ hs hd hst) hrun hrest
    have hall : M.AllSteps C s (l :: ls) ↔ C s l ∧ M.AllSteps C s₁ ls := allSteps_cons_iff hst
    by_cases hc : C s l
    · have heq := hkeep _ _ _ hs hd hc hst
      rw [hall, ← hiff, and_iff_right hc, ← heq]
      exact ⟨hle, Iff.rfl⟩
    · have hlt := hgrow _ _ _ hs hd hc hst
      exact ⟨by omega, iff_of_false (by omega) fun h => hc (hall.1 h).1⟩

/-- **An invariant with a flag.**  Steps that satisfy `C` keep the flag, all others raise it.
Then the flag tells at the end of a run whether all its steps satisfy `C`. -/
theorem flag_of_run {I : Bool → S → Prop} {D C : S → L → Prop}
    (hkeep : ∀ b s l s', I b s → D s l → C s l → M.step s l = some s' → I b s')
    (hraise : ∀ b s l s', I b s → D s l → ¬ C s l → M.step s l = some s' → I true s')
    {s s' : S} {ls : List L} {b : Bool} (hs : I b s) (h : M.run s ls = some s')
    (hD : M.AllSteps D s ls) :
    M.AllSteps C s ls ∧ I b s' ∨ ¬ M.AllSteps C s ls ∧ I true s' := by
  induction ls generalizing s b with
  | nil =>
    cases h
    exact Or.inl ⟨trivial, hs⟩
  | cons l ls ih =>
    obtain ⟨s₁, hst, hrun⟩ := Option.bind_eq_some_iff.1 h
    obtain ⟨hd, hrest⟩ := hD s₁ hst
    by_cases hc : C s l
    · rcases ih (hkeep _ _ _ _ hs hd hc hst) hrun hrest with ⟨hall, hI⟩ | ⟨hnot, hI⟩
      · refine Or.inl ⟨fun s₂ hst' => ?_, hI⟩
        cases hst.symm.trans hst'
        exact ⟨hc, hall⟩
      · exact Or.inr ⟨fun hall => hnot (hall s₁ hst).2, hI⟩
    · have hI : I true s' := by
        rcases ih (hraise _ _ _ _ hs hd hc hst) hrun hrest with ⟨-, hI⟩ | ⟨-, hI⟩ <;> exact hI
      exact Or.inr ⟨fun hall => hc (hall s₁ hst).1, hI⟩

end Machine

end Conc
