import Comyno.Conc.Machine
import Mathlib.Data.List.Infix

/-!
# Reading a log that grows

Some steps of a machine append to a log, others read it.  What is read was true of the log at the
moment of reading; later the log has grown, and of what was read one knows that it is true of some
part of it, which contains all that was there before the reading began.

## Main results

* `Machine.ReachableWhere.log_grows` : a log that no step shortens grows along a run.
* `Machine.ReachableWhere.exists_moment` : a value that was read in a run is true of the log at one
  moment of the run.
-/

namespace Conc.Machine.ReachableWhere

variable {S L α β : Type*} {M : Machine S L} {C : S → L → Prop} {I : S → Prop} {log : S → List α}
  {s₀ s : S}

/-- **A log that no step shortens** grows along a run. -/
theorem log_grows (h : M.ReachableWhere C s₀ s) (hI : ∀ s, M.ReachableWhere C s₀ s → I s)
    (hlog : ∀ s l s', I s → C s l → M.step s l = some s' → log s <+: log s') :
    log s₀ <+: log s :=
  h.invariant_of (J := fun s => log s₀ <+: log s) hI List.prefix_rfl
    fun _ _ _ hs hle hl hst => hle.trans (hlog _ _ _ hs hl hst)

/-- **What was read is true of one moment.**  Each step keeps the value, or reads one that `P` says
is true of the log.  Then a value that was read in a run is true of the log at some moment of it. -/
theorem exists_moment (value : S → Option β) {P : List α → β → Prop}
    (h : M.ReachableWhere C s₀ s) (hI : ∀ s, M.ReachableWhere C s₀ s → I s)
    (hlog : ∀ s l s', I s → C s l → M.step s l = some s' → log s <+: log s')
    (hread : ∀ s l s', I s → C s l → M.step s l = some s' →
      value s' = value s ∨ ∀ v, value s' = some v → P (log s) v)
    (hnone : value s₀ = none) {v : β} (hv : value s = some v) :
    ∃ l, log s₀ <+: l ∧ l <+: log s ∧ P l v := by
  induction h with
  | refl =>
    rw [hnone] at hv
    cases hv
  | @tail s s' hr hst ih =>
    obtain ⟨l, hl, hst⟩ := hst
    have hs : I s := hI s hr
    have hgrows : log s <+: log s' := hlog _ _ _ hs hl hst
    rcases hread _ _ _ hs hl hst with hsame | hnew
    · obtain ⟨l', hfirst, hlast, hP⟩ := ih (hsame.symm.trans hv)
      exact ⟨l', hfirst, hlast.trans hgrows, hP⟩
    · exact ⟨log s, log_grows hr hI hlog, hgrows, hnew v hv⟩

end Conc.Machine.ReachableWhere
