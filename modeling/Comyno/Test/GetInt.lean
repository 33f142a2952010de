import Mathlib.Algebra.Group.Int.Defs
import Mathlib.Data.Int.Order.Basic
import Mathlib.Data.List.TakeWhile

/-!
# Reading an integer from the terminal

`t_get_int` reads a token from standard input, checks with a scanner of its own that it is an
optional sign followed by digits, and converts it with `std::stoi`.  The scanner accepts a sign
without digits, which `std::stoi` refuses with `std::invalid_argument`; the only exception that
`t_get_int` catches is `std::out_of_range`.

An iterator into the token is modelled by the characters from there to the end.

## Main definitions

* `tGetInt` : the code; `scan` is its scanner and `stoi` the conversion.
* `Denotes` : the numbers that tokens denote.

## Main results

* `skipDigits_eq_nil_iff` : the loop of the scanner reaches the end when it meets digits only.
* `stoi_eq` : what the conversion does with a token that the scanner accepts.
* `parsedExactly_iff` : the only tokens for which `t_get_int` fails are the two signs.
-/

namespace Comyno

/-- The exceptions of `std::stoi`. -/
inductive StoiError where
  | invalidArgument
  | outOfRange
  deriving DecidableEq, Repr

/-- `n` is a value of an `int`. -/
def FitsInt (n : ℤ) : Prop := -2 ^ 31 ≤ n ∧ n < 2 ^ 31

instance (n : ℤ) : Decidable (FitsInt n) := inferInstanceAs (Decidable (_ ∧ _))

/-! ### The code -/

/-- `*it`, which is read as NUL at the end. -/
def deref (it : List Char) : Char := it.headD '\x00'

/-- `while (it != str.end() && std::isdigit(*it)) ++it;` -/
def skipDigits : List Char → List Char
  | [] => []
  | c :: it => if c.isDigit then skipDigits it else c :: it

/-- Where the scanner stops in `str`. -/
def scan (str : List Char) : List Char :=
  let it := str
  skipDigits (if deref it = '-' ∨ deref it = '+' ∨ (deref it).isDigit then it.tail else it)

/-- `std::isspace`. -/
def isSpace (c : Char) : Bool := c = ' ' || '\t' ≤ c && c ≤ '\r'

/-- The number that `std::stoi` finds at the beginning of `str`, which does not begin with a blank:
an optional sign and as many digits as there are; `none` if there are none. -/
def convert (str : List Char) : Option ℤ :=
  let digits := match str with
    | '-' :: str | '+' :: str => str.takeWhile Char.isDigit
    | str => str.takeWhile Char.isDigit
  if digits = [] then none
  else if str.head? = some '-' then some (-Nat.ofDigitChars 10 digits 0)
  else some (Nat.ofDigitChars 10 digits 0)

/-- `std::stoi(str)`. -/
def stoi (str : List Char) : Except StoiError ℤ :=
  match convert (str.dropWhile isSpace) with
  | none => .error .invalidArgument
  | some n => if FitsInt n then .ok n else .error .outOfRange

/-- `t_get_int` with the token `str`: what it returns, or the exception that leaves it, and the
value of `*val` afterwards. -/
def tGetInt (str : List Char) (val : ℤ) : Except StoiError ℤ × ℤ :=
  if str = [] ∨ scan str ≠ [] then (.ok (-1), val)
  else match stoi str with
    | .ok i => (.ok 0, i)
    | .error .outOfRange => (.ok (-1), val)
    -- not caught
    | .error .invalidArgument => (.error .invalidArgument, val)

example : tGetInt "-2147483648".toList 7 = (.ok 0, -2147483648) := by decide
example : tGetInt "2147483648".toList 7 = (.ok (-1), 7) := by decide

/-! ### What tokens denote -/

/-- One or more decimal digits. -/
structure IsDigits (digits : List Char) : Prop where
  ne_nil : digits ≠ []
  digit : ∀ c ∈ digits, c.isDigit = true

/-- The token is an optional sign followed by one or more decimal digits, with the value `n`. -/
inductive Denotes : List Char → ℤ → Prop
  | unsigned {digits : List Char} : IsDigits digits →
      Denotes digits (Nat.ofDigitChars 10 digits 0)
  | plus {digits : List Char} : IsDigits digits →
      Denotes ('+' :: digits) (Nat.ofDigitChars 10 digits 0)
  | minus {digits : List Char} : IsDigits digits →
      Denotes ('-' :: digits) (-Nat.ofDigitChars 10 digits 0)

/-- `t_get_int` is right about the token: it returns `0` and stores `n` if and only if the token
denotes `n` and `n` fits an `int`, it returns `-1` and leaves `*val` alone for every other token,
and no exception leaves it. -/
structure ParsedExactly (token : List Char) (val : ℤ) : Prop where
  accepts : ∀ n, tGetInt token val = (.ok 0, n) ↔ Denotes token n ∧ FitsInt n
  rejects : (¬ ∃ n, Denotes token n ∧ FitsInt n) → tGetInt token val = (.ok (-1), val)
  returns : ∃ ret, (tGetInt token val).1 = .ok ret

/-! ### The scanner -/

/-- **The loop of the scanner** reaches the end exactly when it meets nothing but digits. -/
theorem skipDigits_eq_nil_iff (it : List Char) :
    skipDigits it = [] ↔ ∀ c ∈ it, c.isDigit = true := by
  induction it with
  | nil => simp [skipDigits]
  | cons c it ih =>
    rw [skipDigits, List.forall_mem_cons]
    split_ifs with hc
    · rw [ih, and_iff_right hc]
    · simp [hc]

theorem scan_sign {c : Char} (hc : c = '-' ∨ c = '+') (str : List Char) :
    scan (c :: str) = skipDigits str := by
  rcases hc with rfl | rfl <;> rfl

/-- The first character of a token without a sign is a digit, or the scanner stops there. -/
theorem scan_eq_nil_iff {str : List Char} (hne : str ≠ []) (hminus : str.head? ≠ some '-')
    (hplus : str.head? ≠ some '+') : scan str = [] ↔ ∀ c ∈ str, c.isDigit = true := by
  obtain ⟨c, str, rfl⟩ := List.exists_cons_of_ne_nil hne
  have hsign : ¬ (c = '-' ∨ c = '+') := by simpa using And.intro hminus hplus
  push Not at hsign
  rw [List.forall_mem_cons, scan]
  simp only [deref, List.headD_cons, hsign, false_or, List.tail_cons]
  split_ifs with hc
  · rw [skipDigits_eq_nil_iff, and_iff_right hc]
  · simp [skipDigits, hc]

/-- **What the scanner accepts**: the tokens that denote a number, and the two signs. -/
theorem denotes_of_scan {str : List Char} (hne : str ≠ []) (h : scan str = []) :
    (∃ n, Denotes str n) ∨ str = ['+'] ∨ str = ['-'] := by
  by_cases hsign : ∃ c digits, str = c :: digits ∧ (c = '-' ∨ c = '+')
  · obtain ⟨c, digits, rfl, hc⟩ := hsign
    rw [scan_sign hc, skipDigits_eq_nil_iff] at h
    by_cases hnil : digits = []
    · subst hnil
      exact Or.inr (by rcases hc with rfl | rfl <;> simp)
    · rcases hc with rfl | rfl
      · exact Or.inl ⟨_, .minus ⟨hnil, h⟩⟩
      · exact Or.inl ⟨_, .plus ⟨hnil, h⟩⟩
  · have hhead : ∀ c, c = '-' ∨ c = '+' → str.head? ≠ some c := by
      intro c hc hhead
      obtain ⟨digits, rfl⟩ := List.head?_eq_some_iff.1 hhead
      exact hsign ⟨c, digits, rfl, hc⟩
    rw [scan_eq_nil_iff hne (hhead _ (Or.inl rfl)) (hhead _ (Or.inr rfl))] at h
    exact Or.inl ⟨_, .unsigned ⟨hne, h⟩⟩

/-! ### The conversion -/

namespace IsDigits

variable {digits : List Char}

theorem takeWhile_eq (h : IsDigits digits) : digits.takeWhile Char.isDigit = digits :=
  List.takeWhile_eq_self_iff.2 h.digit

theorem head?_ne (h : IsDigits digits) {c : Char} (hc : c.isDigit = false) :
    digits.head? ≠ some c := by
  intro hhead
  have hmem := h.digit c (List.mem_of_head? hhead)
  rw [hc] at hmem
  cases hmem

end IsDigits

theorem isSpace_eq_false_of_isDigit {c : Char} (h : c.isDigit = true) : isSpace c = false := by
  simp only [Char.isDigit, isSpace, Bool.and_eq_true, Bool.or_eq_false_iff, Bool.and_eq_false_iff,
    decide_eq_true_eq, decide_eq_false_iff_not, ge_iff_le] at h ⊢
  refine ⟨?_, Or.inr fun hle => ?_⟩
  · rintro rfl
    exact absurd h.1 (by decide)
  · exact absurd (Char.le_trans h.1 hle) (by decide)

variable {str : List Char} {n m : ℤ}

namespace Denotes

theorem ne_nil (h : Denotes str n) : str ≠ [] := by
  cases h with
  | unsigned hd => exact hd.ne_nil
  | plus | minus => exact List.cons_ne_nil _ _

/-- The scanner accepts the tokens that denote a number. -/
theorem scan_eq (h : Denotes str n) : scan str = [] := by
  cases h with
  | unsigned hd =>
    exact (scan_eq_nil_iff hd.ne_nil (hd.head?_ne (by decide)) (hd.head?_ne (by decide))).2 hd.digit
  | plus hd => rw [scan_sign (Or.inr rfl), skipDigits_eq_nil_iff]; exact hd.digit
  | minus hd => rw [scan_sign (Or.inl rfl), skipDigits_eq_nil_iff]; exact hd.digit

/-- There are no blanks to skip. -/
theorem dropWhile_eq (h : Denotes str n) : str.dropWhile isSpace = str := by
  cases h with
  | unsigned hd =>
    obtain ⟨c, digits, rfl⟩ := List.exists_cons_of_ne_nil hd.ne_nil
    rw [List.dropWhile_cons, isSpace_eq_false_of_isDigit (hd.digit c List.mem_cons_self)]
    rfl
  | plus | minus => rfl

/-- The conversion finds the number that the token denotes. -/
theorem convert_eq (h : Denotes str n) : convert str = some n := by
  cases h with
  | plus hd => simp [convert, hd.takeWhile_eq, hd.ne_nil]
  | minus hd => simp [convert, hd.takeWhile_eq, hd.ne_nil]
  | unsigned hd =>
    have hminus : str.head? ≠ some '-' := hd.head?_ne (by decide)
    have hplus : str.head? ≠ some '+' := hd.head?_ne (by decide)
    unfold convert
    split
    · exact absurd rfl hminus
    · exact absurd rfl hplus
    · simp [hd.takeWhile_eq, hd.ne_nil, hminus]

/-- A token denotes at most one number. -/
theorem unique (h : Denotes str n) (h' : Denotes str m) : m = n :=
  Option.some.inj (h'.convert_eq.symm.trans h.convert_eq)

/-- **What `std::stoi` does** with a token that denotes a number. -/
theorem stoi_eq (h : Denotes str n) :
    stoi str = if FitsInt n then .ok n else .error .outOfRange := by
  rw [stoi, h.dropWhile_eq, h.convert_eq]

theorem tGetInt_eq (h : Denotes str n) (val : ℤ) :
    tGetInt str val = if FitsInt n then (.ok 0, n) else (.ok (-1), val) := by
  rw [tGetInt, if_neg (by simp [h.ne_nil, h.scan_eq]), h.stoi_eq]
  split_ifs <;> rfl

end Denotes

/-! ### The result -/

/-- A token that the scanner refuses. -/
theorem tGetInt_of_not_denotes (h : ¬ ∃ n, Denotes str n) (hplus : str ≠ ['+'])
    (hminus : str ≠ ['-']) (val : ℤ) : tGetInt str val = (.ok (-1), val) := by
  refine if_pos ?_
  by_contra hacc
  push Not at hacc
  rcases denotes_of_scan hacc.1 hacc.2 with hd | rfl | rfl
  · exact h hd
  · exact hplus rfl
  · exact hminus rfl

/-- The exception that leaves `t_get_int`. -/
theorem tGetInt_sign (hsign : str = ['+'] ∨ str = ['-']) (val : ℤ) :
    tGetInt str val = (.error .invalidArgument, val) := by
  rcases hsign with rfl | rfl <;> rfl

/-- A token that is refused for a reason. -/
theorem ParsedExactly.of_rejected {val : ℤ} (heq : tGetInt str val = (.ok (-1), val))
    (hno : ¬ ∃ n, Denotes str n ∧ FitsInt n) : ParsedExactly str val where
  accepts n := by
    rw [heq]
    exact iff_of_false (by simp) fun h => hno ⟨n, h⟩
  rejects _ := heq
  returns := ⟨-1, by rw [heq]⟩

/-- A token that denotes a number. -/
theorem ParsedExactly.of_denotes (hn : Denotes str n) (val : ℤ) : ParsedExactly str val := by
  have heq := hn.tGetInt_eq val
  by_cases hfit : FitsInt n
  · rw [if_pos hfit] at heq
    refine ⟨fun m => ?_, fun hno => absurd ⟨n, hn, hfit⟩ hno, 0, by rw [heq]⟩
    rw [heq]
    constructor
    · intro h
      cases h
      exact ⟨hn, hfit⟩
    · rintro ⟨hm, -⟩
      rw [hn.unique hm]
  · rw [if_neg hfit] at heq
    refine .of_rejected heq ?_
    rintro ⟨m, hm, hfit'⟩
    exact hfit (hn.unique hm ▸ hfit')

/-- **`t_get_int` parses a token exactly if and only if the token is not a lone sign.** -/
theorem parsedExactly_iff (token : List Char) (val : ℤ) :
    ParsedExactly token val ↔ token ≠ ['+'] ∧ token ≠ ['-'] := by
  constructor
  · intro h
    obtain ⟨ret, hret⟩ := h.returns
    constructor
    · rintro rfl
      rw [tGetInt_sign (Or.inl rfl)] at hret
      cases hret
    · rintro rfl
      rw [tGetInt_sign (Or.inr rfl)] at hret
      cases hret
  · rintro ⟨hplus, hminus⟩
    by_cases hden : ∃ n, Denotes token n
    · obtain ⟨n, hn⟩ := hden
      exact .of_denotes hn val
    · refine .of_rejected (tGetInt_of_not_denotes hden hplus hminus val) ?_
      rintro ⟨n, hn, -⟩
      exact hden ⟨n, hn⟩

/-- A lone sign lets `std::invalid_argument` out of `t_get_int`. -/
theorem tGetInt_lone_sign : (tGetInt ['-'] 0).1 = .error .invalidArgument ∧
    ¬ ∀ token val, ParsedExactly token val := by
  refine ⟨rfl, fun h => ?_⟩
  obtain ⟨ret, hret⟩ := (h ['-'] 0).returns
  cases hret

end Comyno
