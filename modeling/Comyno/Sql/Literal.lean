import Mathlib.Data.List.TakeWhile

/-!
# Texts in SQL

A text is written into a statement between quotes, with the quotes in it doubled, and read back from
there (`readLiteral_quote`).  Before that it passes through a string of C, which ends at its first
zero byte (`cString`).  A column of type `VARCHAR(n)` does not store every text: characters beyond
the `n`-th are an error, unless they are all spaces, which are cut (`varchar`).
-/

namespace Sql

/-! ### Strings of C -/

/-- The text up to its first zero byte. -/
def cString (s : String) : String := String.ofList (s.toList.takeWhile (· ≠ '\x00'))

/-- A text without a zero byte is left as it is. -/
theorem cString_eq {s : String} (h : '\x00' ∉ s.toList) : cString s = s := by
  have hall : ∀ c ∈ s.toList, decide (c ≠ '\x00') = true := fun c hc =>
    decide_eq_true fun e => h (e ▸ hc)
  rw [cString, List.takeWhile_eq_self_iff.2 hall, String.ofList_toList]

/-! ### Literals -/

/-- The text between the quotes. -/
def escape : List Char → List Char
  | [] => []
  | c :: cs => if c = '\'' then '\'' :: '\'' :: escape cs else c :: escape cs

/-- A text as a literal. -/
def quote (s : String) : String := String.ofList ('\'' :: escape s.toList ++ ['\''])

/-- Read up to the closing quote; the second component is the rest. -/
def readEscaped : List Char → Option (List Char × List Char)
  | [] => none
  | '\'' :: '\'' :: cs => (readEscaped cs).map fun p => ('\'' :: p.1, p.2)
  | '\'' :: cs => some ([], cs)
  | c :: cs => (readEscaped cs).map fun p => (c :: p.1, p.2)

/-- Read a literal; the second component is the rest. -/
def readLiteral : List Char → Option (List Char × List Char)
  | '\'' :: cs => readEscaped cs
  | _ => none

theorem readEscaped_escape (s rest : List Char) (h : rest.head? ≠ some '\'') :
    readEscaped (escape s ++ '\'' :: rest) = some (s, rest) := by
  induction s with
  | nil =>
    cases rest with
    | nil => rfl
    | cons c cs =>
      have hc : c ≠ '\'' := fun e => h (by rw [e]; rfl)
      simp [escape, readEscaped, hc]
  | cons c cs ih =>
    by_cases hc : c = '\''
    · simp [escape, readEscaped, hc, ih]
    · simp [escape, readEscaped, hc, ih]

/-- **A literal is read back**, whatever its text, unless another quote follows. -/
theorem readLiteral_quote (s : String) (rest : List Char) (h : rest.head? ≠ some '\'') :
    readLiteral ((quote s).toList ++ rest) = some (s.toList, rest) := by
  simp only [quote, String.toList_ofList, List.cons_append, List.append_assoc, readLiteral,
    List.nil_append]
  exact readEscaped_escape s.toList rest h

/-! ### Columns -/

/-- What a column of type `VARCHAR(n)` stores for a text; `none` if it is too long. -/
def varchar (n : ℕ) (s : String) : Option String :=
  if s.length ≤ n then some s
  else if (s.toList.drop n).all (· = ' ') then some (String.ofList (s.toList.take n)) else none

/-- A space beyond the `n`-th character is cut. -/
theorem varchar_append_space {n : ℕ} {s : String} (h : s.length = n) :
    varchar n (s ++ " ") = some s := by
  subst h
  have hlt : ¬ (s ++ " ").length ≤ s.length := by
    rw [String.length_append, show " ".length = 1 from rfl]
    omega
  rw [varchar, if_neg hlt, String.toList_append, ← String.length_toList, List.drop_left,
    List.take_left, String.ofList_toList]
  simp

theorem length_of_varchar {n : ℕ} {s t : String} (h : varchar n s = some t) : t.length ≤ n := by
  unfold varchar at h
  split at h
  · cases h
    assumption
  · split at h <;> cases h
    rw [String.length_ofList, List.length_take]
    exact Nat.min_le_left _ _

end Sql
