import Comyno.Test.Dialogue

/-!
# The end of the input

No menu resets the flags of `std::cin`, and an empty token is invalid input in every menu.  So a
menu that meets the end of the text stays in its loop for ever: `main` returns only after it has
read a token for `-1`.

## Main results

* `stuck_of_step` : a menu at the end of the text is where it is after every further step.
* `end_of_input` : the text bounds what the main thread does, and ends it only by a minus sign.
-/

namespace Comyno

open Conc Text

/-! ### What reading leaves of the text -/

/-- The code takes what it reads off the front of the text. -/
def Reading.Consumes {α : Type} (r : Reading α) : Prop := ∀ cin, (r cin).2.rest <:+ cin.rest

theorem consumes_pure {α : Type} (a : α) : Reading.Consumes (pure a : Reading α) :=
  fun _ => List.suffix_refl _

theorem Reading.Consumes.bind {α β : Type} {r : Reading α} {k : α → Reading β} (hr : r.Consumes)
    (hk : ∀ a, (k a).Consumes) : Consumes (r >>= k) :=
  fun cin => (hk (r cin).1 _).trans (hr cin)

theorem consumes_token : token.Consumes := fun _ => Istream.rest_word_suffix isSpace

theorem consumes_ignoreLine : ignoreLine.Consumes := fun cin =>
  Istream.rest_ignore_suffix (s := cin.clear)

theorem consumes_message : message.Consumes := fun _ => Istream.rest_line_suffix

theorem Item.consumes_input {idx : ℕ} {reading : Reading Item} (h : Item.input idx = some reading) :
    reading.Consumes := by
  unfold Item.input at h
  split at h <;> cases h
  · exact consumes_token.bind fun _ => consumes_message.bind fun _ => consumes_pure _
  · exact consumes_token.bind fun _ => consumes_message.bind fun _ =>
      consumes_token.bind fun _ => consumes_pure _
  · exact consumes_token.bind fun _ => consumes_pure _
  · exact consumes_token.bind fun _ => consumes_pure _
  · exact consumes_token.bind fun _ => consumes_message.bind fun _ => consumes_pure _
  · exact consumes_token.bind fun _ => consumes_ignoreLine.bind fun _ => consumes_pure _
  · exact consumes_token.bind fun _ => consumes_pure _
  · exact consumes_message.bind fun _ => consumes_pure _
  · exact consumes_pure _
  · exact consumes_pure _

theorem PgItem.consumes_input {idx : ℕ} {reading : Reading PgItem}
    (h : PgItem.input idx = some reading) : reading.Consumes := by
  unfold PgItem.input at h
  split at h <;> cases h
  · exact consumes_message.bind fun _ => consumes_pure _
  · exact consumes_token.bind fun _ => consumes_message.bind fun _ => consumes_pure _
  · exact consumes_token.bind fun _ => consumes_pure _
  · exact consumes_pure _
  · exact consumes_message.bind fun _ => consumes_pure _
  · exact consumes_pure _

/-! ### What the menus do with a token -/

/-- An empty token is invalid input. -/
theorem choose_nil (len : ℕ) : choose len [] = .again := rfl

/-- A token that `t_get_int` accepts denotes the value. -/
theorem denotes_of_tGetInt {str : List Char} {val ret n : ℤ} (h : tGetInt str val = (.ok ret, n))
    (hret : 0 ≤ ret) : Denotes str n := by
  by_cases hd : ∃ m, Denotes str m
  · obtain ⟨m, hm⟩ := hd
    rw [hm.tGetInt_eq] at h
    split_ifs at h
    · cases h
      exact hm
    · cases h
      exact absurd hret (by decide)
  · by_cases hsign : str = ['+'] ∨ str = ['-']
    · rw [tGetInt_sign hsign] at h
      cases h
    · push Not at hsign
      rw [tGetInt_of_not_denotes hd hsign.1 hsign.2] at h
      cases h
      exact absurd hret (by decide)

/-- A menu is left by a token with a minus sign. -/
theorem minus_mem_of_exit {len : ℕ} {str : List Char} (h : choose len str = .exit) :
    '-' ∈ str := by
  unfold choose at h
  split at h
  · cases h
  · rename_i ret idx heq
    split_ifs at h with hret hidx
    subst hidx
    have hd := denotes_of_tGetInt heq (not_lt.1 hret)
    generalize hn : (-1 : ℤ) = n at hd
    cases hd with
    | minus => exact List.mem_cons_self
    | unsigned | plus => omega

/-- An item is entered by a token. -/
theorem ne_nil_of_entry {len idx : ℕ} {str : List Char} (h : choose len str = .entry idx) :
    str ≠ [] := by
  rintro rfl
  rw [choose_nil] at h
  cases h

/-- A menu that reads an empty token stays. -/
theorem MainPc.read_nil {pc : MainPc} (h : pc.inMenu = true) : pc.read [] = some pc := by
  cases pc with
  | modules | items m => simp [read, choose_nil]
  | _ => cases h

/-- What a menu has read when it leads to a handler or out of `main`. -/
theorem MainPc.chosen_of_read {pc pc' : MainPc} {str : List Char} (h : pc.read str = some pc') :
    (∀ idx, pc' = .handler idx → ∃ len, choose len str = .entry idx) ∧
      ∀ objs, pc' = .destroy objs → ∃ len, choose len str = .exit := by
  cases pc with
  | modules =>
    obtain rfl := Option.some.inj h
    cases hc : choose 2 str with
    | exit => exact ⟨by simp, fun _ _ => ⟨2, hc⟩⟩
    | again | entry | threw => exact ⟨by simp, by simp⟩
  | items m =>
    obtain rfl := Option.some.inj h
    cases hc : choose (itemLen m) str with
    | entry idx =>
      refine ⟨fun idx' h => ⟨itemLen m, ?_⟩, fun objs h => ?_⟩ <;> dsimp only at h <;>
        split_ifs at h
      cases h
      exact hc
    | again | exit | threw => exact ⟨by simp, by simp⟩
  | _ => cases h

/-- The menu stays when it enters an item of `cm_pgclient.cpp`. -/
theorem PgItem.of_chosen {pc : MainPc} {str : List Char} {reading : Reading PgItem}
    (h : PgItem.chosen pc str = some reading) :
    str ≠ [] ∧ reading.Consumes ∧ ∃ m, pc.read str = some (.items m) := by
  unfold chosen at h
  split at h
  · rename_i m
    split_ifs at h with hm
    cases hc : choose (MainPc.itemLen m) str with
    | entry idx =>
      rw [hc] at h
      exact ⟨ne_nil_of_entry hc, consumes_input h, m, by simp [MainPc.read, hc, hm]⟩
    | again | exit | threw =>
      rw [hc] at h
      cases h
  · cases h

theorem readToken_of_not_good {pc : MainPc} {cin : Istream Char} {entered : List Entry}
    (h : cin.good = false) :
    readToken pc cin entered = ({ cin with fail := true }, entered) := by
  simp only [readToken, Istream.word_of_not_good h]
  split
  · rename_i hreading
    exact absurd rfl (PgItem.of_chosen hreading).1
  · rfl

/-! ### The bound -/

namespace Dialogue

variable {t : Dialogue}

/-- The text that is left, the items that were entered and the one whose handler reads. -/
def weight (t : Dialogue) : ℕ :=
  t.entered.length + t.cin.rest.length + (match t.pc with | .handler _ => 1 | _ => 0)

theorem rest_readToken (pc : MainPc) (cin : Istream Char) (entered : List Entry) :
    (readToken pc cin entered).1.rest <:+ (cin.word isSpace).2.rest := by
  unfold readToken
  split
  · rename_i hreading
    exact (PgItem.of_chosen hreading).2.1 _
  · exact List.suffix_refl _

/-- The text is read from the front. -/
theorem rest_advance (t : Dialogue) : t.advance.cin.rest <:+ t.cin.rest := by
  unfold advance
  split
  · split
    · rename_i hreading
      exact Item.consumes_input hreading _
    · exact List.suffix_refl _
  · unfold advanceMenu
    split
    · exact (rest_readToken ..).trans (Istream.rest_word_suffix isSpace)
    · exact List.suffix_refl _

/-- A token that enters an item takes something off the text. -/
theorem weight_advanceMenu (t : Dialogue) : t.advanceMenu.weight ≤ t.weight := by
  unfold advanceMenu
  split
  · rename_i pc hread
    have hword := (Istream.rest_word_suffix isSpace (s := t.cin)).length_le
    have hentry := (MainPc.chosen_of_read hread).1
    cases hreading : PgItem.chosen t.pc (t.cin.word isSpace).1 with
    | some reading =>
      obtain ⟨hne, hconsumes, m, hm⟩ := PgItem.of_chosen hreading
      obtain rfl := Option.some.inj (hread.symm.trans hm)
      have hlt := Istream.word_shrinks hne
      have hle := (hconsumes (t.cin.word isSpace).2).length_le
      simp only [weight, readToken, hreading, List.length_append, List.length_singleton]
      omega
    | none =>
      simp only [weight, readToken, hreading]
      split
      · obtain ⟨len, hchoose⟩ := hentry _ rfl
        have hlt := Istream.word_shrinks (ne_nil_of_entry hchoose)
        omega
      · omega
  · exact le_rfl

/-- **An item costs a character** of the text. -/
theorem weight_advance (t : Dialogue) : t.advance.weight ≤ t.weight := by
  unfold advance
  split
  · rename_i hpc
    split
    · rename_i reading hreading
      have hle := (Item.consumes_input hreading t.cin).length_le
      simp only [weight, hpc, List.length_append, List.length_singleton]
      omega
    · exact le_rfl
  · exact t.weight_advanceMenu

/-- Without a minus sign in the text, `main` does not return. -/
theorem returned_advance (h : '-' ∉ t.cin.rest) (hpc : t.pc.returned = false) :
    t.advance.pc.returned = false := by
  unfold advance
  split
  · split
    · rfl
    · exact hpc
  · unfold advanceMenu
    split
    · rename_i pc hread
      have hexit := (MainPc.chosen_of_read hread).2
      obtain ⟨-, rfl | rfl | rfl | ⟨m, rfl⟩ | ⟨idx, rfl⟩⟩ := MainPc.read_cases hread
      · obtain ⟨len, hchoose⟩ := hexit _ rfl
        exact absurd (Istream.word_subset isSpace (minus_mem_of_exit hchoose)) h
      all_goals rfl
    · exact hpc

end Dialogue

/-- What holds of the dialogue after any number of reads. -/
theorem dialogue_bound (text : List Char) (n : ℕ) :
    let t := Dialogue.advance^[n] (.start text)
    t.weight ≤ text.length ∧ t.cin.rest <:+ text ∧ ('-' ∉ text → t.pc.returned = false) := by
  induction n with
  | zero => exact ⟨by simp [Dialogue.weight, Dialogue.start], List.suffix_refl _, fun _ => rfl⟩
  | succ n ih =>
    obtain ⟨hweight, hrest, hreturned⟩ := ih
    simp only [Function.iterate_succ_apply']
    refine ⟨(Dialogue.weight_advance _).trans hweight, (Dialogue.rest_advance _).trans hrest, ?_⟩
    intro hminus
    exact Dialogue.returned_advance (fun hmem => hminus (hrest.subset hmem)) (hreturned hminus)

/-! ### A menu at the end of the text -/

variable {parse : AddressParser} {s s' : Terminal} {l : ProgramLabel}

/-- A menu that has met the end of the text. -/
structure Terminal.Stuck (s₀ s : Terminal) : Prop where
  main : s.program.main = s₀.program.main
  called : s.called = s₀.called
  good : s.cin.good = false

/-- **A menu at the end of the text reads nothing for ever.** -/
theorem stuck_of_step {s₀ : Terminal} (hmenu : s₀.program.main.inMenu = true)
    (h : s₀.Stuck s) (hst : (terminal parse).step s l = some s') : s₀.Stuck s' := by
  obtain ⟨-, hst⟩ := terminal_step_cases hst
  have hin : s.program.main.inMenu = true := h.main ▸ hmenu
  cases hst with
  | read hp =>
    cases hp with
    | read hread =>
      rw [Istream.word_of_not_good h.good, MainPc.read_nil hin] at hread
      cases hread
      refine ⟨h.main, h.called, ?_⟩
      simp only [Terminal.afterToken, readToken_of_not_good h.good]
      simp [Istream.good]
  | input hreading hp =>
    cases hp with
    | input hm =>
      rw [hm] at hin
      cases hin
  | main hp =>
    cases hp with
    | finish hm | enter hm | call hm | returned hm | erase hm | destroy hm | destructor hm
    | destroyed hm =>
      rw [hm] at hin
      cases hin
  | callback hp => exact ⟨(main_of_callback hp).trans h.main, h.called, h.good⟩
  | library hp => exact ⟨(main_of_library hp).trans h.main, h.called, h.good⟩

/-- **What the end of the text means for the program.**  In every run with the text `text` as
standard input:

* once a menu has met the end of the text, the main thread stays in this menu in the rest of the
  run, and calls the client no more;
* the main thread enters at most as many items as the text has characters;
* `main` has not returned, unless the text has a minus sign. -/
theorem end_of_input (parse : AddressParser) (text : List Char) {s : Terminal}
    (h : (terminal parse).Reachable (.start text) s) :
    (s.program.main.inMenu = true → s.cin.good = false → ∀ s', (terminal parse).Reachable s s' →
      s'.program.main = s.program.main ∧ s'.called = s.called) ∧
    s.entered.length ≤ text.length ∧
    ('-' ∉ text → s.program.main.returned = false) := by
  obtain ⟨n, hn⟩ := exists_shows h
  obtain ⟨hweight, -, hreturned⟩ := dialogue_bound text n
  refine ⟨fun hmenu hgood s' h' => ?_, ?_, fun hminus => ?_⟩
  · have hstuck : s.Stuck s' :=
      h'.invariant ⟨rfl, rfl, hgood⟩ fun _ _ _ hi _ hst => stuck_of_step hmenu hi hst
    exact ⟨hstuck.main, hstuck.called⟩
  · rw [hn.entered]
    exact (Nat.le_add_right _ _).trans ((Nat.le_add_right _ _).trans hweight)
  · by_cases hend : s.program.main = .terminated
    · rw [hend]
      rfl
    · have hpc := hn.pc hend
      have hret := hreturned hminus
      rw [hpc] at hret
      cases hmain : s.program.main <;> rw [hmain] at hret <;> first | rfl | cases hret

/-- The text ends in the menu of a module. -/
theorem end_of_input_module : ∃ s,
    (terminal plainName).run (.start "0".toList) [.read ['0']] = some s ∧
    s.program.main = .items 0 ∧ s.program.main.returned = false ∧
    ∀ s', (terminal plainName).Reachable s s' → s'.program.main = .items 0 := by
  have hrun : ∃ s, (terminal plainName).run (.start "0".toList) [.read ['0']] = some s ∧
      s.program.main = .items 0 ∧ s.cin.good = false := ⟨_, rfl, rfl, rfl⟩
  obtain ⟨s, hs, hmain, hgood⟩ := hrun
  obtain ⟨hstuck, -, hreturned⟩ :=
    end_of_input plainName "0".toList (Machine.reachable_of_run hs)
  refine ⟨s, hs, hmain, hreturned (by decide), fun s' h' => ?_⟩
  rw [(hstuck (by rw [hmain]; rfl) hgood s' h').1, hmain]

end Comyno
