import Comyno.Conc.Machine

/-!
# Machines seen through a map

A machine with more in its state than another one, a composition with further components or an
observer that keeps a record, still runs the smaller machine inside.  The relation between the
two is a map on states and a translation of labels; a label without translation leaves the image
of the state alone.

## Main definitions

* `Machine.Maps M N f g` : `f` takes the steps of `M` to steps of `N`.
* `Machine.observe M upd` : `M` with a record of its steps, which `upd` keeps.

## Main results

* `Machine.Maps.reachableWhere` : what `M` reaches is mapped to what `N` reaches, so the
  invariants of `N` hold of `M`; `Machine.Maps.exists_run` says the same of runs.
* `Machine.exists_run_observe`, `Machine.ReachableWhere.exists_observe` : every run can be
  observed.
-/

namespace Conc

namespace Machine

variable {S L S' L' S'' L'' H : Type*}

/-- `f` takes every step of `M` to the step of `N` that `g` names, or to no step. -/
def Maps (M : Machine S L) (N : Machine S' L') (f : S → S') (g : S → L → Option L') : Prop :=
  ∀ s l s', M.step s l = some s' →
    match g s l with
    | some l' => N.step (f s) l' = some (f s')
    | none => f s' = f s

/-- `M` with a record of its steps: `upd` updates the record from the state before the step, the
label and the state after it. -/
def observe (M : Machine S L) (upd : H → S → L → S → H) : Machine (S × H) L :=
  ⟨fun p l => (M.step p.1 l).map fun s' => (s', upd p.2 p.1 l s')⟩

namespace Maps

variable {M : Machine S L} {N : Machine S' L'} {f : S → S'} {g : S → L → Option L'}

/-- **A map takes reachable states to reachable states**, under conditions that it respects. -/
theorem reachableWhere {C : S → L → Prop} {C' : S' → L' → Prop} (hf : Maps M N f g)
    (hC : ∀ s l l', C s l → g s l = some l' → C' (f s) l') {s₀ s : S}
    (h : M.ReachableWhere C s₀ s) : N.ReachableWhere C' (f s₀) (f s) := by
  induction h with
  | refl => exact ReachableWhere.refl _
  | @tail s₁ s₂ _ hst ih =>
    obtain ⟨l, hc, hl⟩ := hst
    have hm := hf s₁ l s₂ hl
    cases hg : g s₁ l with
    | some l' =>
      rw [hg] at hm
      exact ih.tail (hC s₁ l l' hc hg) hm
    | none =>
      rw [hg] at hm
      rw [hm]
      exact ih

/-- A step is mapped to a step, or has no translation and leaves the image alone. -/
theorem step_cases (hf : Maps M N f g) {s s' : S} {l : L} (h : M.step s l = some s') :
    g s l = none ∧ f s' = f s ∨ ∃ l', g s l = some l' ∧ N.step (f s) l' = some (f s') := by
  have hm := hf s l s' h
  cases hg : g s l with
  | some l' =>
    rw [hg] at hm
    exact Or.inr ⟨l', rfl, hm⟩
  | none =>
    rw [hg] at hm
    exact Or.inl ⟨rfl, hm⟩

/-- A step is mapped to a step, or leaves the image alone. -/
theorem step_or_eq (hf : Maps M N f g) {s s' : S} {l : L} (h : M.step s l = some s') :
    f s' = f s ∨ ∃ l', g s l = some l' ∧ N.step (f s) l' = some (f s') :=
  (hf.step_cases h).imp_left And.right

/-- Maps compose. -/
theorem comp {P : Machine S'' L''} {f' : S' → S''} {g' : S' → L' → Option L''} (hf : Maps M N f g)
    (hf' : Maps N P f' g') :
    Maps M P (f' ∘ f) fun s l => (g s l).bind (g' (f s)) := by
  intro s l s' h
  have hm := hf s l s' h
  cases hg : g s l with
  | none =>
    rw [hg] at hm
    simp [hg, hm]
  | some l' =>
    rw [hg] at hm
    simpa [hg] using hf' _ _ _ hm

/-- **A map takes runs to runs**, and conditions on the labels to conditions that it respects. -/
theorem exists_run {p : L → Prop} {q : L' → Prop} (hf : Maps M N f g)
    (hp : ∀ s l l', p l → g s l = some l' → q l') {s s' : S} {ls : List L}
    (h : M.run s ls = some s') (hls : ∀ l ∈ ls, p l) :
    ∃ ls', N.run (f s) ls' = some (f s') ∧ ∀ l' ∈ ls', q l' := by
  induction ls generalizing s with
  | nil =>
    cases h
    exact ⟨[], rfl, by simp⟩
  | cons l ls ih =>
    obtain ⟨s₁, hst, hrun⟩ := Option.bind_eq_some_iff.1 h
    obtain ⟨ls', hls', hq⟩ := ih hrun fun l hl => hls l (List.mem_cons_of_mem _ hl)
    rcases hf.step_or_eq hst with heq | ⟨l', hg, hst'⟩
    · exact ⟨ls', heq ▸ hls', hq⟩
    · refine ⟨l' :: ls', by rw [run_cons, hst']; exact hls', ?_⟩
      exact List.forall_mem_cons.2 ⟨hp _ _ _ (hls l List.mem_cons_self) hg, hq⟩

/-- Where the translation of a label does not depend on the state, so does that of a run. -/
theorem run_filterMap {g : L → Option L'} (hf : Maps M N f fun _ l => g l) {s s' : S} {ls : List L}
    (h : M.run s ls = some s') : N.run (f s) (ls.filterMap g) = some (f s') := by
  induction ls generalizing s with
  | nil =>
    cases h
    rfl
  | cons l ls ih =>
    obtain ⟨s₁, hst, hrun⟩ := Option.bind_eq_some_iff.1 h
    rcases hf.step_cases hst with ⟨hg, heq⟩ | ⟨l', hg, hst'⟩
    · rw [List.filterMap_cons_none hg, ← heq]
      exact ih hrun
    · rw [List.filterMap_cons_some hg, run_cons, hst']
      exact ih hrun

theorem reachable (hf : Maps M N f g) {C : S → L → Prop} {s₀ s : S}
    (h : M.ReachableWhere C s₀ s) : N.Reachable (f s₀) (f s) :=
  hf.reachableWhere (fun _ _ _ _ _ => trivial) h

end Maps

section Observe

variable {M : Machine S L} {u : H → S → L → S → H}

theorem observe_step_eq_some_iff {p p' : S × H} {l : L} :
    (M.observe u).step p l = some p' ↔
      M.step p.1 l = some p'.1 ∧ p'.2 = u p.2 p.1 l p'.1 := by
  obtain ⟨s', x'⟩ := p'
  simp only [observe, Option.map_eq_some_iff, Prod.mk.injEq]
  constructor
  · rintro ⟨s₁, hst, rfl, rfl⟩
    exact ⟨hst, rfl⟩
  · rintro ⟨hst, rfl⟩
    exact ⟨s', hst, rfl, rfl⟩

/-- The record does not influence the steps. -/
theorem maps_observe : Maps (M.observe u) M Prod.fst fun _ l => some l :=
  fun _ _ _ hst => (observe_step_eq_some_iff.1 hst).1

/-- **Every run can be observed.** -/
theorem exists_run_observe {s s' : S} {ls : List L} (h : M.run s ls = some s') (x : H) :
    ∃ x', (M.observe u).run (s, x) ls = some (s', x') := by
  induction ls generalizing s x with
  | nil =>
    cases h
    exact ⟨x, rfl⟩
  | cons l ls ih =>
    obtain ⟨s₁, hst, hrun⟩ := Option.bind_eq_some_iff.1 h
    obtain ⟨x', hx'⟩ := ih hrun (u x s l s₁)
    have hobs : (M.observe u).step (s, x) l = some (s₁, u x s l s₁) :=
      observe_step_eq_some_iff.2 ⟨hst, rfl⟩
    exact ⟨x', by rw [run_cons, hobs]; exact hx'⟩

/-- **What is reachable is reachable with a record.** -/
theorem ReachableWhere.exists_observe {C : S → L → Prop} {s s' : S}
    (h : M.ReachableWhere C s s') (x : H) :
    ∃ x', (M.observe u).ReachableWhere (fun p l => C p.1 l) (s, x) (s', x') := by
  induction h with
  | refl => exact ⟨x, .refl _⟩
  | @tail s₁ s₂ _ hst ih =>
    obtain ⟨l, hc, hst⟩ := hst
    obtain ⟨x', hx'⟩ := ih
    exact ⟨u x' s₁ l s₂, hx'.tail hc (observe_step_eq_some_iff.2 ⟨hst, rfl⟩)⟩

/-- Conditions on the steps are conditions on the observed steps. -/
theorem allSteps_observe {C : S → L → Prop} {s : S} {ls : List L} (h : M.AllSteps C s ls) (x : H) :
    (M.observe u).AllSteps (fun p l => C p.1 l) (s, x) ls := by
  induction ls generalizing s x with
  | nil => trivial
  | cons l ls ih =>
    rintro ⟨s', x'⟩ hst
    obtain ⟨hc, hrest⟩ := h s' (observe_step_eq_some_iff.1 hst).1
    exact ⟨hc, ih hrest x'⟩

end Observe

end Machine

end Conc
