import Mathlib.Data.List.TakeWhile

/-!
# Input streams

An input stream in the manner of C++ holds a text that is read from the front and two flags: `eof`
is set by a read that meets the end of the text, `fail` by a read that finds nothing.  While one of
them is set every read fails at once and leaves the text alone, until `clear` resets both.

A read into a fresh variable returns what the variable holds afterwards: the empty word if the read
has failed.

## Main definitions

* `Istream.word` : `is >> word`, which skips blanks and takes what follows up to the next blank.
* `Istream.ignore` : `is.ignore(max, delim)`.
* `Istream.getline` : `getline(is, line, delim)`.
* `Istream.line` : what is left of the present line is skipped and the next one is taken.

## Main results

* `Istream.word_append`, `Istream.line_append` : what is read of a text that begins with a word, or
  with the end of a line and another line.
* `Istream.word_of_not_good` : a stream that is not good stays as it is.
* `Istream.word_shrinks` : a word takes something off the text.
-/

namespace Text

/-- An input stream. -/
structure Istream (α : Type*) where
  /-- What was not read yet. -/
  rest : List α
  eof : Bool := false
  fail : Bool := false
  deriving DecidableEq, Repr

namespace Istream

variable {α : Type*} (s : Istream α)

/-- `is.good()`. -/
def good : Bool := !s.eof && !s.fail

/-- `is.clear()`. -/
def clear : Istream α := ⟨s.rest, false, false⟩

/-- The stream at the end of its text. -/
def atEnd (fail : Bool) : Istream α := ⟨[], true, fail⟩

/-- `is >> word`, with the blanks given by `space`. -/
def word (space : α → Bool) : List α × Istream α :=
  if s.good then
    match s.rest.dropWhile space with
    | [] => ([], atEnd true)
    | c :: cs =>
      -- the blank after the word is not taken
      match (c :: cs).dropWhile (!space ·) with
      | [] => (c :: cs, atEnd false)
      | blank :: rest => ((c :: cs).takeWhile (!space ·), ⟨blank :: rest, false, false⟩)
  else ([], { s with fail := true })

section Lines

variable [DecidableEq α] (delim : α)

/-- `is.ignore(max, delim)`. -/
def ignore : Istream α :=
  if s.good then
    match s.rest.dropWhile (· ≠ delim) with
    | [] => atEnd false
    | _ :: rest => ⟨rest, false, false⟩
  else { s with fail := true }

/-- `getline(is, line, delim)`. -/
def getline : List α × Istream α :=
  if s.good then
    match s.rest.dropWhile (· ≠ delim) with
    | [] => (s.rest, atEnd s.rest.isEmpty)
    | _ :: rest => (s.rest.takeWhile (· ≠ delim), ⟨rest, false, false⟩)
  else ([], { s with fail := true })

/-- What is left of the present line is skipped, and the next line is taken. -/
def line : List α × Istream α := (s.clear.ignore delim).getline delim

end Lines

variable {s}

@[simp] theorem good_mk (rest : List α) : (⟨rest, false, false⟩ : Istream α).good = true := rfl

@[simp] theorem clear_mk (rest : List α) (eof fail : Bool) :
    (⟨rest, eof, fail⟩ : Istream α).clear = ⟨rest, false, false⟩ := rfl

/-- A read of a stream that is not good. -/
theorem word_of_not_good {space : α → Bool} (h : s.good = false) :
    s.word space = ([], { s with fail := true }) := by
  rw [word, h]
  rfl

/-- The blanks before a word are skipped, and the word ends before the next blank. -/
theorem word_append {space : α → Bool} {blanks w rest : List α} {blank : α}
    (hblanks : ∀ c ∈ blanks, space c = true) (hne : w ≠ []) (hw : ∀ c ∈ w, space c = false)
    (hblank : space blank = true) :
    word ⟨blanks ++ (w ++ blank :: rest), false, false⟩ space =
      (w, ⟨blank :: rest, false, false⟩) := by
  obtain ⟨c, cs, rfl⟩ := List.exists_cons_of_ne_nil hne
  have hskip : (blanks ++ (c :: cs ++ blank :: rest)).dropWhile space =
      c :: (cs ++ blank :: rest) := by
    rw [List.dropWhile_append_of_pos hblanks, List.cons_append,
      List.dropWhile_cons_of_neg (by simp [hw c])]
  have hnot : ∀ d ∈ c :: cs, (!space d) = true := fun d hd => by simp [hw d hd]
  have hdrop : (c :: (cs ++ blank :: rest)).dropWhile (!space ·) = blank :: rest := by
    rw [← List.cons_append, List.dropWhile_append_of_pos hnot,
      List.dropWhile_cons_of_neg (by simp [hblank])]
  have htake : (c :: (cs ++ blank :: rest)).takeWhile (!space ·) = c :: cs := by
    rw [← List.cons_append, List.takeWhile_append_of_pos hnot,
      List.takeWhile_cons_of_neg (by simp [hblank]), List.append_nil]
  simp only [word, good_mk, if_true, hskip, hdrop, htake]

section Lines

variable [DecidableEq α] {delim : α}

/-- The delimiter is where the text was cut. -/
theorem dropWhile_ne_append {l rest : List α} (hl : delim ∉ l) :
    (l ++ delim :: rest).dropWhile (· ≠ delim) = delim :: rest := by
  have hne : ∀ c ∈ l, decide (c ≠ delim) = true := by
    intro c hc
    simpa using fun h : c = delim => hl (h ▸ hc)
  rw [List.dropWhile_append_of_pos hne, List.dropWhile_cons_of_neg (by simp)]

theorem ignore_append {l rest : List α} (hl : delim ∉ l) :
    ignore ⟨l ++ delim :: rest, false, false⟩ delim = ⟨rest, false, false⟩ := by
  simp only [ignore, good_mk, if_true, dropWhile_ne_append hl]

theorem getline_append {l rest : List α} (hl : delim ∉ l) :
    getline ⟨l ++ delim :: rest, false, false⟩ delim = (l, ⟨rest, false, false⟩) := by
  have hne : ∀ c ∈ l, decide (c ≠ delim) = true := by
    intro c hc
    simpa using fun h : c = delim => hl (h ▸ hc)
  have htake : (l ++ delim :: rest).takeWhile (· ≠ delim) = l := by
    rw [List.takeWhile_append_of_pos hne, List.takeWhile_cons_of_neg (by simp), List.append_nil]
  simp only [getline, good_mk, if_true, dropWhile_ne_append hl, htake]

/-- The line after the present one, which need not be at its beginning. -/
theorem line_append {junk l rest : List α} {eof fail : Bool} (hjunk : delim ∉ junk)
    (hl : delim ∉ l) :
    line ⟨junk ++ delim :: (l ++ delim :: rest), eof, fail⟩ delim =
      (l, ⟨rest, false, false⟩) := by
  rw [line, clear_mk, ignore_append hjunk, getline_append hl]

end Lines

/-! ### What a read leaves -/

theorem rest_word_suffix (space : α → Bool) : (s.word space).2.rest <:+ s.rest := by
  have hskip := List.dropWhile_suffix space (l := s.rest)
  unfold word
  split_ifs
  · split
    · exact List.nil_suffix
    · rename_i c cs hcs
      have hword := List.dropWhile_suffix (!space ·) (l := c :: cs)
      rw [hcs] at hskip
      split
      · exact List.nil_suffix
      · rename_i hrest
        rw [hrest] at hword
        exact hword.trans hskip
  · exact List.suffix_refl _

/-- The characters of a word come from the text. -/
theorem word_subset (space : α → Bool) : (s.word space).1 ⊆ s.rest := by
  have hskip := (List.dropWhile_suffix space (l := s.rest)).subset
  unfold word
  split_ifs
  · split
    · exact List.nil_subset _
    · rename_i hcs
      rw [hcs] at hskip
      split
      · exact hskip
      · exact List.Subset.trans (List.takeWhile_prefix _).subset hskip
  · exact List.nil_subset _

/-- **A word takes something off the text**, unless the read fails. -/
theorem word_shrinks {space : α → Bool} (h : (s.word space).1 ≠ []) :
    (s.word space).2.rest.length < s.rest.length := by
  have hskip := List.length_dropWhile_le space s.rest
  unfold word at h ⊢
  split_ifs at h ⊢
  · split at h
    · exact absurd rfl h
    · rename_i c cs hcs
      have hc : space c = false := by
        have := List.head?_dropWhile_not space s.rest
        simpa [hcs] using this
      rw [hcs] at hskip
      have hword : ((c :: cs).dropWhile (!space ·)).length < (c :: cs).length := by
        rw [List.dropWhile_cons_of_pos (by simp [hc])]
        exact Nat.lt_succ_of_le (List.length_dropWhile_le _ _)
      split
      · exact Nat.lt_of_lt_of_le (Nat.succ_pos _) hskip
      · rename_i hrest
        rw [hrest] at hword
        exact hword.trans_le hskip
  · exact absurd rfl h

section Lines

variable [DecidableEq α] {delim : α}

theorem rest_ignore_suffix : (s.ignore delim).rest <:+ s.rest := by
  have hskip := List.dropWhile_suffix (· ≠ delim) (l := s.rest)
  unfold ignore
  split_ifs
  · split
    · exact List.nil_suffix
    · rename_i hrest
      rw [hrest] at hskip
      exact (List.suffix_cons _ _).trans hskip
  · exact List.suffix_refl _

theorem rest_getline_suffix : (s.getline delim).2.rest <:+ s.rest := by
  have hskip := List.dropWhile_suffix (· ≠ delim) (l := s.rest)
  unfold getline
  split_ifs
  · split
    · exact List.nil_suffix
    · rename_i hrest
      rw [hrest] at hskip
      exact (List.suffix_cons _ _).trans hskip
  · exact List.suffix_refl _

theorem rest_line_suffix : (s.line delim).2.rest <:+ s.rest :=
  rest_getline_suffix.trans (rest_ignore_suffix (s := s.clear))

end Lines

end Istream

end Text
