import Mathlib.Data.List.Nodup
import Mathlib.Logic.Function.Basic

/-!
# Brokers: queues with sessions

A broker keeps the messages that were published, in order.  Each of them is in the queue, held by
the session to which it was delivered, or acknowledged by that session.  A session acknowledges
everything it holds at once, and when it closes, what it still holds returns to the queue.  So a
message may be delivered more than once, but never again once it is acknowledged.

## Main definitions

* `Place` : where a message is.
* `Broker` : the messages and their places; a message is named by its position in `published`.
* `Broker.publish`, `Broker.deliver`, `Broker.acknowledge`, `Broker.close` : what happens to them;
  `Broker.Move` is one of these.

## Main results

* `Broker.Move.place_eq_acked` : what is acknowledged stays acknowledged.
-/

namespace Conc

/-- Where a message is. -/
inductive Place (ρ : Type*) where
  /-- In the queue. -/
  | queued
  /-- Delivered to the session `r`. -/
  | held (r : ρ)
  /-- Acknowledged by the session `r`. -/
  | acked (r : ρ)
  deriving DecidableEq, Repr

/-- A broker of messages `α` with sessions `ρ`. -/
structure Broker (α ρ : Type*) where
  published : List α := []
  place : ℕ → Place ρ := fun _ => .queued

namespace Broker

variable {α ρ : Type*} (B : Broker α ρ)

/-- A message arrives. -/
def publish (a : α) : Broker α ρ := { B with published := B.published ++ [a] }

/-- The message `d` is delivered to the session `r`. -/
def deliver (r : ρ) (d : ℕ) : Broker α ρ := { B with place := Function.update B.place d (.held r) }

/-- The session `r` acknowledges what it holds. -/
def acknowledge [DecidableEq ρ] (r : ρ) : Broker α ρ :=
  { B with place := fun d => if B.place d = .held r then .acked r else B.place d }

/-- The sessions that are `closed` lose what they hold. -/
def close (closed : ρ → Bool) : Broker α ρ :=
  { B with
    place := fun d => match B.place d with
      | .held r => if closed r then .queued else .held r
      | p => p }

@[simp] theorem published_deliver (r : ρ) (d : ℕ) : (B.deliver r d).published = B.published := rfl
@[simp] theorem published_acknowledge [DecidableEq ρ] (r : ρ) :
    (B.acknowledge r).published = B.published := rfl
@[simp] theorem published_close (closed : ρ → Bool) :
    (B.close closed).published = B.published := rfl
@[simp] theorem place_publish (a : α) : (B.publish a).place = B.place := rfl

/-- A message keeps its name. -/
theorem getElem?_publish {d : ℕ} {a : α} (b : α) (h : B.published[d]? = some a) :
    (B.publish b).published[d]? = some a := by
  rw [publish, List.getElem?_append_left (List.getElem?_eq_some_iff.1 h).1]
  exact h

theorem getElem?_publish_length (a : α) :
    (B.publish a).published[B.published.length]? = some a := by
  simp [publish]

@[simp] theorem place_deliver (r : ρ) (d x : ℕ) :
    (B.deliver r d).place x = if x = d then .held r else B.place x := Function.update_apply ..

variable {B} {r q : ρ} {d : ℕ} {closed : ρ → Bool}

@[simp] theorem place_acknowledge_eq_acked [DecidableEq ρ] : (B.acknowledge r).place d = .acked q ↔
    B.place d = .acked q ∨ q = r ∧ B.place d = .held r := by
  simp only [acknowledge]
  split_ifs with h
  · simp [h, eq_comm]
  · simp [h]

@[simp] theorem place_acknowledge_eq_held [DecidableEq ρ] : (B.acknowledge r).place d = .held q ↔
    B.place d = .held q ∧ q ≠ r := by
  simp only [acknowledge]
  split_ifs with h
  · simp [h, eq_comm]
  · exact ⟨fun hq => ⟨hq, fun e => h (e ▸ hq)⟩, And.left⟩

@[simp] theorem place_close_eq_acked : (B.close closed).place d = .acked q ↔
    B.place d = .acked q := by
  simp only [close]
  cases B.place d with
  | held r => by_cases h : closed r = true <;> simp [h]
  | queued | acked => exact Iff.rfl

@[simp] theorem place_close_eq_held : (B.close closed).place d = .held q ↔
    B.place d = .held q ∧ closed q = false := by
  simp only [close]
  cases B.place d with
  | held r =>
    by_cases h : closed r = true
    · simp only [h, if_true, reduceCtorEq, Place.held.injEq, false_iff, not_and]
      rintro rfl
      simp [h]
    · simp only [h, Bool.false_eq_true, if_false, Place.held.injEq, iff_self_and]
      rintro rfl
      exact eq_false_of_ne_true h
  | queued | acked => simp

/-- One event at a broker; it delivers only what is in the queue. -/
inductive Move [DecidableEq ρ] (B : Broker α ρ) : Broker α ρ → Prop
  | publish (a : α) : Move B (B.publish a)
  | deliver (r : ρ) (d : ℕ) : B.place d = .queued → Move B (B.deliver r d)
  | acknowledge (r : ρ) : Move B (B.acknowledge r)
  | close (closed : ρ → Bool) : Move B (B.close closed)

/-- **What is acknowledged stays acknowledged**, and so is not delivered again. -/
theorem Move.place_eq_acked [DecidableEq ρ] {B' : Broker α ρ} (h : Move B B')
    (hd : B.place d = .acked r) : B'.place d = .acked r := by
  cases h with
  | publish => exact hd
  | deliver q x hx =>
    have hne : d ≠ x := by
      rintro rfl
      rw [hd] at hx
      cases hx
    simpa [hne] using hd
  | acknowledge => simp [hd]
  | close => simp [hd]

end Broker

end Conc
