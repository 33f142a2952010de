import Comyno.Conc.Machine

/-!
# Locks taken and released by hand

A non-recursive lock is a variable that names its owner, if it has one.  Code that calls `lock`
and `unlock` by hand has a *critical section* between the two calls, and it may leave this
section in two ways: through `unlock`, or through an exception that skips `unlock`.  A
`LockView` reads the owner and the critical section off the states of a machine, and a
`LockAct` says what one step does to them.

## Main results

* `LockView.Held` : a thread inside the critical section owns the lock.  Every step keeps it
  (`LockView.Move.held`), so two threads are never inside together
  (`LockView.Held.unique`), however the section is left.
* `LockView.NoOrphan` : the owner of the lock is inside the critical section.  Steps keep it
  unless they abandon the lock, and a step that abandons the lock breaks it, so a run is free of
  orphaned locks exactly when none of its steps abandons the lock
  (`LockView.Follows.always_noOrphan_iff`).
* `LockView.Move.orphaned` : an orphaned lock stays locked forever.
-/

namespace Conc

/-- The owner of a lock, and which threads are between their `lock` and their `unlock`. -/
structure LockView (S T : Type*) where
  /-- The thread whose call of `lock` has not been undone by an `unlock`. -/
  owner : S → Option T
  /-- `t` is between its `lock` and its `unlock`. -/
  inside : S → T → Prop

/-- What a step does to a lock. -/
inductive LockAct (T : Type*) where
  /-- Nothing. -/
  | keep
  /-- `t` locks it. -/
  | acquire (t : T)
  /-- `t` unlocks it. -/
  | release (t : T)
  /-- `t` leaves the critical section without unlocking. -/
  | abandon (t : T)
  deriving DecidableEq

namespace LockView

variable {S T L : Type*} (V : LockView S T)

/-- The step from `s` to `s'` acts on the lock as the given action says. -/
inductive Move (s s' : S) : LockAct T → Prop
  | keep : V.owner s' = V.owner s → (∀ u, V.inside s' u ↔ V.inside s u) → Move s s' .keep
  | acquire {t : T} : V.owner s = none → V.owner s' = some t →
      (∀ u, V.inside s' u ↔ u = t ∨ V.inside s u) → Move s s' (.acquire t)
  | release {t : T} : V.inside s t → V.owner s' = none →
      (∀ u, V.inside s' u ↔ u ≠ t ∧ V.inside s u) → Move s s' (.release t)
  | abandon {t : T} : V.inside s t → V.owner s' = V.owner s →
      (∀ u, V.inside s' u ↔ u ≠ t ∧ V.inside s u) → Move s s' (.abandon t)

/-- Whoever is inside the critical section owns the lock. -/
def Held (s : S) : Prop := ∀ t, V.inside s t → V.owner s = some t

/-- Whoever owns the lock is inside the critical section. -/
def NoOrphan (s : S) : Prop := ∀ t, V.owner s = some t → V.inside s t

/-- The lock is locked by `t`, which is no longer inside the critical section. -/
def Orphaned (s : S) (t : T) : Prop := V.owner s = some t ∧ ¬ V.inside s t

variable {V}

/-- **Mutual exclusion**: at most one thread is inside the critical section. -/
theorem Held.unique {s : S} (h : V.Held s) {t u : T} (ht : V.inside s t) (hu : V.inside s u) :
    t = u :=
  Option.some.inj ((h t ht).symm.trans (h u hu))

/-- Nobody is inside the critical section of an orphaned lock. -/
theorem Orphaned.not_inside {s : S} {t : T} (ho : V.Orphaned s t) (h : V.Held s) (u : T) :
    ¬ V.inside s u := by
  intro hu
  have : u = t := Option.some.inj ((h u hu).symm.trans ho.1)
  exact ho.2 (this ▸ hu)

namespace Move

variable {s s' : S} {a : LockAct T}

section Local

/-! A step of `t` moves no other thread into or out of the critical section. -/

variable {t : T} (hother : ∀ u, u ≠ t → (V.inside s' u ↔ V.inside s u))
include hother

theorem keep_of_local (hown : V.owner s' = V.owner s) (hin : V.inside s' t ↔ V.inside s t) :
    V.Move s s' .keep := by
  refine .keep hown fun u => ?_
  by_cases hu : u = t
  · rw [hu, hin]
  · exact hother u hu

theorem acquire_of_local (hfree : V.owner s = none) (hown : V.owner s' = some t)
    (hin : V.inside s' t) : V.Move s s' (.acquire t) := by
  refine .acquire hfree hown fun u => ?_
  by_cases hu : u = t
  · exact iff_of_true (hu ▸ hin) (Or.inl hu)
  · rw [hother u hu, or_iff_right hu]

theorem release_of_local (hin : V.inside s t) (hown : V.owner s' = none)
    (hout : ¬ V.inside s' t) : V.Move s s' (.release t) := by
  refine .release hin hown fun u => ?_
  by_cases hu : u = t
  · exact iff_of_false (hu ▸ hout) fun h => h.1 hu
  · rw [hother u hu, and_iff_right hu]

theorem abandon_of_local (hin : V.inside s t) (hown : V.owner s' = V.owner s)
    (hout : ¬ V.inside s' t) : V.Move s s' (.abandon t) := by
  refine .abandon hin hown fun u => ?_
  by_cases hu : u = t
  · exact iff_of_false (hu ▸ hout) fun h => h.1 hu
  · rw [hother u hu, and_iff_right hu]

end Local

/-- No step lets a thread inside without making it the owner. -/
theorem held (hm : V.Move s s' a) (h : V.Held s) : V.Held s' := by
  intro u hu
  cases hm with
  | keep hown hin =>
    rw [hown]
    exact h u ((hin u).1 hu)
  | acquire hfree hown hin =>
    rcases (hin u).1 hu with rfl | hu
    · exact hown
    · exact absurd ((h u hu).symm.trans hfree) (by simp)
  | release ht _ hin =>
    obtain ⟨hne, hu⟩ := (hin u).1 hu
    exact absurd (h.unique hu ht) hne
  | abandon ht _ hin =>
    obtain ⟨hne, hu⟩ := (hin u).1 hu
    exact absurd (h.unique hu ht) hne

/-- A step that does not abandon the lock does not orphan it. -/
theorem noOrphan (hm : V.Move s s' a) (h : V.NoOrphan s) (ha : ∀ t, a ≠ .abandon t) :
    V.NoOrphan s' := by
  intro u hu
  cases hm with
  | keep hown hin => exact (hin u).2 (h u (hown ▸ hu))
  | acquire _ hown hin =>
    rw [hown, Option.some.injEq] at hu
    exact (hin u).2 (Or.inl hu.symm)
  | release _ hown _ =>
    rw [hown] at hu
    cases hu
  | @abandon t _ _ _ => exact absurd rfl (ha t)

/-- A step that abandons the lock orphans it. -/
theorem orphaned_of_abandon {t : T} (hm : V.Move s s' (.abandon t)) (h : V.Held s) :
    V.Orphaned s' t := by
  cases hm with
  | abandon ht hown hin => exact ⟨hown.trans (h t ht), fun hin' => ((hin t).1 hin').1 rfl⟩

/-- **An orphaned lock stays locked**: nobody is left to unlock it. -/
theorem orphaned {t : T} (hm : V.Move s s' a) (h : V.Held s) (ho : V.Orphaned s t) :
    V.Orphaned s' t := by
  obtain ⟨hown, hout⟩ := ho
  cases hm with
  | keep hown' hin => exact ⟨hown'.trans hown, fun hin' => hout ((hin t).1 hin')⟩
  | acquire hfree _ _ =>
    rw [hown] at hfree
    cases hfree
  | @release u hu _ _ =>
    have : u = t := Option.some.inj ((h u hu).symm.trans hown)
    exact absurd (this ▸ hu) hout
  | abandon _ hown' hin => exact ⟨hown'.trans hown, fun hin' => hout ((hin t).1 hin').2⟩

end Move

variable (V) in
/-- In the states that satisfy the invariant `I`, `act` names what every step of `M` does to the
lock. -/
def Follows (M : Machine S L) (I : S → Prop) (act : S → L → LockAct T) : Prop :=
  ∀ s l s', I s → M.step s l = some s' → I s' ∧ V.Move s s' (act s l)

/-- The steps that do not abandon the lock. -/
def KeepsLock (act : S → L → LockAct T) (s : S) (l : L) : Prop := ∀ t, act s l ≠ .abandon t

namespace Follows

variable {M : Machine S L} {I : S → Prop} {act : S → L → LockAct T} (hV : V.Follows M I act)
include hV

theorem held_of_reachable {C : S → L → Prop} {s₀ s : S} (h : M.ReachableWhere C s₀ s)
    (hI : I s₀) (h₀ : V.Held s₀) : V.Held s :=
  (h.invariant (I := fun s => I s ∧ V.Held s) ⟨hI, h₀⟩ fun _ _ _ hs _ hst =>
    ⟨(hV _ _ _ hs.1 hst).1, (hV _ _ _ hs.1 hst).2.held hs.2⟩).2

/-- The lock is not orphaned as long as no step abandons it. -/
theorem noOrphan_of_reachable {C : S → L → Prop} (hC : ∀ s l, C s l → KeepsLock act s l)
    {s₀ s : S} (h : M.ReachableWhere C s₀ s) (hI : I s₀) (h₀ : V.NoOrphan s₀) : V.NoOrphan s :=
  (h.invariant (I := fun s => I s ∧ V.NoOrphan s) ⟨hI, h₀⟩ fun _ _ _ hs hc hst =>
    ⟨(hV _ _ _ hs.1 hst).1, (hV _ _ _ hs.1 hst).2.noOrphan hs.2 (hC _ _ hc)⟩).2

/-- **A run never orphans the lock exactly when none of its steps abandons it.** -/
theorem always_noOrphan_iff {s : S} (hI : I s) (hheld : V.Held s) (hs : V.NoOrphan s)
    (ls : List L) : M.Always V.NoOrphan s ls ↔ M.AllSteps (KeepsLock act) s ls := by
  refine Machine.always_iff_allSteps (J := fun s => I s ∧ V.Held s) (D := fun _ _ => True)
    ?_ ?_ ?_ ⟨hI, hheld⟩ hs (Machine.allSteps_of_labels fun _ _ _ => trivial)
  · exact fun _ _ _ h _ hst => ⟨(hV _ _ _ h.1 hst).1, (hV _ _ _ h.1 hst).2.held h.2⟩
  · exact fun _ _ _ h hno _ hc hst => (hV _ _ _ h.1 hst).2.noOrphan hno hc
  · intro s l s' h _ _ hc hst hno
    unfold KeepsLock at hc
    push Not at hc
    obtain ⟨t, ht⟩ := hc
    have hm : V.Move s s' (.abandon t) := ht ▸ (hV _ _ _ h.1 hst).2
    obtain ⟨hown, hout⟩ := hm.orphaned_of_abandon h.2
    exact hout (hno t hown)

/-- Once a lock is orphaned, it is locked in every later state. -/
theorem orphaned_of_reachable {C : S → L → Prop} {s₀ s : S} {t : T}
    (h : M.ReachableWhere C s₀ s) (hI : I s₀) (h₀ : V.Held s₀) (ho : V.Orphaned s₀ t) :
    V.Orphaned s t :=
  (h.invariant (I := fun s => (I s ∧ V.Held s) ∧ V.Orphaned s t) ⟨⟨hI, h₀⟩, ho⟩
    fun _ _ _ hs _ hst => ⟨⟨(hV _ _ _ hs.1.1 hst).1, (hV _ _ _ hs.1.1 hst).2.held hs.1.2⟩,
      (hV _ _ _ hs.1.1 hst).2.orphaned hs.1.2 hs.2⟩).2

end Follows

end LockView

end Conc
