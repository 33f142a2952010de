import Mathlib.Data.List.Basic
import Mathlib.Order.Nat

/-!
# Ledgers: consuming messages with cumulative acknowledgement

A consumer fetches messages one at a time, hands each one to a handler and then acknowledges
*everything it has fetched so far*.  Acknowledging is safe only if nothing fetched is still
unhandled: a message that is acknowledged but not handled is lost.

A `Ledger` records one session of such a consumer.  Its fields bound the three counters by each
other, so that a ledger in which a message is acknowledged before it is handled cannot be built.
The four operations of a well-behaved consumer are `Ledger.fetch`, `Ledger.start`,
`Ledger.finish` and `Ledger.ack`; `Ledger.Step` is one of them.
-/

namespace Conc

/-- The history of one session of a consumer. -/
structure Ledger (α : Type*) where
  /-- The messages fetched, oldest first. -/
  fetched : List α
  /-- How many of them were handed to the handler. -/
  started : ℕ
  /-- How many of them the handler completed. -/
  handled : ℕ
  /-- How many of them are acknowledged. -/
  acked : ℕ
  started_le : started ≤ fetched.length
  handled_le : handled ≤ started
  /-- At most one fetched message is not handled yet. -/
  fetched_le : fetched.length ≤ handled + 1
  acked_le : acked ≤ handled
  /-- At most one handled message is not acknowledged yet. -/
  handled_le_acked : handled ≤ acked + 1

namespace Ledger

variable {α : Type*}

/-- The ledger of a new session. -/
def empty : Ledger α where
  fetched := []
  started := 0
  handled := 0
  acked := 0
  started_le := le_rfl
  handled_le := le_rfl
  fetched_le := Nat.zero_le _
  acked_le := le_rfl
  handled_le_acked := Nat.zero_le _

/-- Fetch one more message, once everything fetched is acknowledged. -/
def fetch (L : Ledger α) (a : α) (h : L.acked = L.fetched.length) : Ledger α where
  fetched := L.fetched ++ [a]
  started := L.started
  handled := L.handled
  acked := L.acked
  started_le := by simpa using L.started_le.trans (Nat.le_succ _)
  handled_le := L.handled_le
  fetched_le := by
    have := L.acked_le
    simp only [List.length_append, List.length_singleton]
    omega
  acked_le := L.acked_le
  handled_le_acked := L.handled_le_acked

/-- Hand the oldest message not handed over yet to the handler. -/
def start (L : Ledger α) (h : L.started < L.fetched.length) : Ledger α where
  fetched := L.fetched
  started := L.started + 1
  handled := L.handled
  acked := L.acked
  started_le := h
  handled_le := L.handled_le.trans (Nat.le_succ _)
  fetched_le := L.fetched_le
  acked_le := L.acked_le
  handled_le_acked := L.handled_le_acked

/-- The handler completes the message it was given; the one before is acknowledged. -/
def finish (L : Ledger α) (h : L.handled < L.started) (ha : L.handled = L.acked) : Ledger α where
  fetched := L.fetched
  started := L.started
  handled := L.handled + 1
  acked := L.acked
  started_le := L.started_le
  handled_le := h
  fetched_le := L.fetched_le.trans (Nat.le_succ _)
  acked_le := L.acked_le.trans (Nat.le_succ _)
  handled_le_acked := by omega

/-- Acknowledge everything fetched, once all of it is handled. -/
def ack (L : Ledger α) (h : L.handled = L.fetched.length) : Ledger α where
  fetched := L.fetched
  started := L.started
  handled := L.handled
  acked := L.fetched.length
  started_le := L.started_le
  handled_le := L.handled_le
  fetched_le := L.fetched_le
  acked_le := h.ge
  handled_le_acked := by omega

/-- One operation of a well-behaved consumer. -/
inductive Step : Ledger α → Ledger α → Prop
  | fetch (L : Ledger α) (a : α) (h : L.acked = L.fetched.length) : Step L (L.fetch a h)
  | start (L : Ledger α) (h : L.started < L.fetched.length) : Step L (L.start h)
  | finish (L : Ledger α) (h : L.handled < L.started) (ha : L.handled = L.acked) :
      Step L (L.finish h ha)
  | ack (L : Ledger α) (h : L.handled = L.fetched.length) : Step L (L.ack h)

/-- The acknowledged messages. -/
def ackedList (L : Ledger α) : List α := L.fetched.take L.acked

/-- The messages whose handler completed. -/
def handledList (L : Ledger α) : List α := L.fetched.take L.handled

/-- The messages handed to the handler. -/
def startedList (L : Ledger α) : List α := L.fetched.take L.started

@[simp] theorem length_ackedList (L : Ledger α) : L.ackedList.length = L.acked := by
  have h₁ := L.acked_le
  have h₂ := L.handled_le
  have h₃ := L.started_le
  simp only [ackedList, List.length_take]
  omega

@[simp] theorem length_handledList (L : Ledger α) : L.handledList.length = L.handled := by
  have h₂ := L.handled_le
  have h₃ := L.started_le
  simp only [handledList, List.length_take]
  omega

@[simp] theorem length_startedList (L : Ledger α) : L.startedList.length = L.started := by
  have h₃ := L.started_le
  simp only [startedList, List.length_take]
  omega

/-- Where everything is acknowledged, everything was handed over. -/
theorem started_eq_of_acked (L : Ledger α) (h : L.acked = L.fetched.length) :
    L.started = L.fetched.length := by
  have h₁ := L.acked_le
  have h₂ := L.handled_le
  have h₃ := L.started_le
  omega

section Operations

variable (L : Ledger α) (a : α)

@[simp] theorem ackedList_fetch (h : L.acked = L.fetched.length) :
    (L.fetch a h).ackedList = L.ackedList :=
  List.take_append_of_le_length h.le

@[simp] theorem handledList_fetch (h : L.acked = L.fetched.length) :
    (L.fetch a h).handledList = L.handledList :=
  List.take_append_of_le_length (L.handled_le.trans L.started_le)

@[simp] theorem startedList_fetch (h : L.acked = L.fetched.length) :
    (L.fetch a h).startedList = L.startedList :=
  List.take_append_of_le_length L.started_le

/-- Starting the message at the end of the session appends it to the messages handed over. -/
theorem startedList_start {l : List α} (hl : L.fetched = l ++ [a]) (hs : L.started = l.length)
    (h : L.started < L.fetched.length) : (L.start h).startedList = L.startedList ++ [a] := by
  have hlen : l.length + 1 = (l ++ [a]).length := by simp
  simp only [startedList, start, hl, hs]
  rw [hlen, List.take_length, List.take_left]

/-- Completing the message at the end of the session appends it to the handled ones. -/
theorem handledList_finish {l : List α} (hl : L.fetched = l ++ [a]) (hh : L.handled = l.length)
    (h : L.handled < L.started) (ha : L.handled = L.acked) :
    (L.finish h ha).handledList = L.handledList ++ [a] := by
  have hlen : l.length + 1 = (l ++ [a]).length := by simp
  simp only [handledList, finish, hl, hh]
  rw [hlen, List.take_length, List.take_left]

@[simp] theorem ackedList_ack (h : L.handled = L.fetched.length) :
    (L.ack h).ackedList = L.fetched :=
  List.take_length

/-- Where everything is handled, the handled messages are the fetched ones. -/
theorem handledList_eq_fetched (h : L.handled = L.fetched.length) : L.handledList = L.fetched := by
  rw [handledList, h, List.take_length]

end Operations

/-- **No loss**: the acknowledged messages are a prefix of the handled ones. -/
theorem acked_prefix (L : Ledger α) : L.ackedList <+: L.handledList :=
  List.take_prefix_take_left L.acked_le

/-- The handled messages are a prefix of those handed over. -/
theorem handled_prefix (L : Ledger α) : L.handledList <+: L.startedList :=
  List.take_prefix_take_left L.handled_le

/-- Messages are handed over in the order in which they were fetched, each at most once. -/
theorem started_prefix (L : Ledger α) : L.startedList <+: L.fetched := List.take_prefix _ _

end Ledger

end Conc
