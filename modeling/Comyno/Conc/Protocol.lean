import Comyno.Conc.Refine

/-!
# Protocols

A protocol says in which order the calls of an interface may be made: it is an automaton whose
events are the calls, with their outcomes where the order depends on them.  A machine whose steps
make such calls keeps the protocol if the automaton accepts the calls of every run; with an index
for each user of the interface, each user has a trace of its own.

## Main definitions

* `Protocol.after` : the state of the automaton after a trace, if it accepts the trace.
* `Machine.traced` : a machine with the trace of each user.

## Main results

* `Machine.keeps_protocol` : the rule by which a machine is shown to keep a protocol: a relation
  between its states and those of the automaton that each step preserves.
-/

namespace Conc

/-- A protocol for the events `E`. -/
structure Protocol (E Q : Type*) where
  /-- Where every trace begins. -/
  init : Q
  /-- The state after an event; `none` if the event must not happen. -/
  next : Q → E → Option Q

namespace Protocol

variable {E Q : Type*} (P : Protocol E Q)

/-- The state after further events. -/
def run (q : Q) (es : List E) : Option Q := es.foldlM P.next q

/-- The state after a trace; `none` if the trace is not allowed. -/
def after (es : List E) : Option Q := P.run P.init es

variable {P}

@[simp] theorem run_nil (q : Q) : P.run q [] = some q := rfl

@[simp] theorem run_singleton (q : Q) (e : E) : P.run q [e] = P.next q e := by
  simp [run]

theorem run_append (q : Q) (es es' : List E) :
    P.run q (es ++ es') = (P.run q es).bind fun q' => P.run q' es' := by
  simp [run, List.foldlM_append]

theorem after_append {q : Q} {es es' : List E} (h : P.after es = some q) :
    P.after (es ++ es') = P.run q es' := by
  rw [after] at h
  rw [after, run_append, h]
  rfl

end Protocol

namespace Machine

variable {S L E Q ι : Type*} {M : Machine S L} {P : Protocol E Q}

/-- `M` with the trace of each user `i`; `emit s l i` are the calls that `i` makes in the step `l`
from `s`. -/
def traced (M : Machine S L) (emit : S → L → ι → List E) : Machine (S × (ι → List E)) L :=
  M.observe fun trace s l _ i => trace i ++ emit s l i

/-- **The rule for protocols.**  `R` relates a state, a user and a state of the protocol; every step
makes calls that the protocol allows and preserves `R`. -/
theorem keeps_protocol {emit : S → L → ι → List E} {C : S → L → Prop} {I : S → Prop}
    {R : S → ι → Q → Prop} {s₀ : S} (hI : ∀ s, M.ReachableWhere C s₀ s → I s)
    (h₀ : ∀ i, R s₀ i P.init)
    (hstep : ∀ s l s' i q, I s → R s i q → C s l → M.step s l = some s' →
      ∃ q', P.run q (emit s l i) = some q' ∧ R s' i q')
    {s : S} {trace : ι → List E}
    (h : (M.traced emit).ReachableWhere (fun p l => C p.1 l) (s₀, fun _ => []) (s, trace)) (i : ι) :
    ∃ q, P.after (trace i) = some q ∧ R s i q := by
  have hmap : ∀ p, (M.traced emit).ReachableWhere (fun p l => C p.1 l) (s₀, fun _ => []) p →
      M.ReachableWhere C s₀ p.1 := fun p hp =>
    maps_observe.reachableWhere (fun _ _ _ hc hl => by cases hl; exact hc) hp
  refine h.invariant_of (I := fun p => I p.1)
    (J := fun p => ∃ q, P.after (p.2 i) = some q ∧ R p.1 i q)
    (fun p hp => hI _ (hmap p hp)) ⟨P.init, rfl, h₀ i⟩ ?_
  rintro ⟨s, trace⟩ l ⟨s', trace'⟩ hIs ⟨q, hq, hR⟩ hc hst
  obtain ⟨hst, htrace⟩ := observe_step_eq_some_iff.1 hst
  obtain ⟨q', hq', hR'⟩ := hstep s l s' i q hIs hR hc hst
  refine ⟨q', ?_, hR'⟩
  change P.after (trace' i) = some q'
  rw [show trace' i = trace i ++ emit s l i from congrFun htrace i, Protocol.after_append hq, hq']

end Machine

end Conc
