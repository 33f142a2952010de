import Comyno.Test.Dialogue

/-!
# Scripts

A script is what a user means to do: visits to the two modules of the program, with the items to
enter in each.  Its text is what the user types, one line for each choice and one for each answer to
a prompt.  The program reads the text back as the script, in every run: what the menus and the
handlers leave of a line is skipped by what reads next.

An exchange is read by `std::cin >>`, so it must be a word; a message is read by `std::getline`, so
it may have blanks, also at its ends, or be empty.

## Main results

* `Script.reaches` : the reads of the main thread give back the script.
* `script_executed` : in every run with the text of a script as standard input, the main thread
  makes the calls of the script, in their order, and all of them before `main` returns.
-/

namespace Comyno

open Conc Text

/-! ### Texts -/

/-- The user types `str` and a newline. -/
def typed (str : String) : List Char := str.toList ++ ['\n']

/-- `std::cin >>` takes it as one word. -/
structure IsWord (str : String) : Prop where
  ne_nil : str.toList ≠ []
  not_space : ∀ c ∈ str.toList, isSpace c = false

/-- `std::getline` takes it as one line. -/
def IsLine (str : String) : Prop := '\n' ∉ str.toList

namespace Item

/-- The answers to the prompts of the handler. -/
def answers : Item → List String
  | .sendMessage exchange message => [exchange, message]
  | .sendMessageWithReplyAddress exchange message replyAddress => [exchange, message, replyAddress]
  | .sendInvalidMessage exchange => [exchange]
  | .receiveMessages exchange => [exchange]
  | .receiveMessagesAndReply exchange replyMessage => [exchange, replyMessage]
  | .receiveMessagesAndPersist exchange => [exchange]
  | .receiveStop exchange => [exchange]
  | .sendMessage8Times message => [message]
  | .receiveMessage4Times | .receiveStop4Times => []

/-- The answers can be read back. -/
def WellFormed : Item → Prop
  | .sendMessage exchange message => IsWord exchange ∧ IsLine message
  | .sendMessageWithReplyAddress exchange message replyAddress =>
    IsWord exchange ∧ IsLine message ∧ IsWord replyAddress
  | .sendInvalidMessage exchange => IsWord exchange
  | .receiveMessages exchange => IsWord exchange
  | .receiveMessagesAndReply exchange replyMessage => IsWord exchange ∧ IsLine replyMessage
  | .receiveMessagesAndPersist exchange => IsWord exchange
  | .receiveStop exchange => IsWord exchange
  | .sendMessage8Times message => IsLine message
  | .receiveMessage4Times | .receiveStop4Times => True

end Item

namespace PgItem

/-- The answers to the prompts of the handler. -/
def answers : PgItem → List String
  | .persistMessage message => [message]
  | .persistMessageOnExchange exchange message => [exchange, message]
  | .queryExchange exchange => [exchange]
  | .persistMessage4Times message => [message]
  | .readAllMessages | .readAllMessages4Times => []

/-- The answers can be read back. -/
def WellFormed : PgItem → Prop
  | .persistMessage message => IsLine message
  | .persistMessageOnExchange exchange message => IsWord exchange ∧ IsLine message
  | .queryExchange exchange => IsWord exchange
  | .persistMessage4Times message => IsLine message
  | .readAllMessages | .readAllMessages4Times => True

end PgItem

/-- A choice in a menu, and the answers to what it asks for. -/
def chosenText (idx : ℕ) (answers : List String) : List Char :=
  Nat.toDigits 10 idx ++ '\n' :: answers.flatMap typed

/-- The choice that leaves a menu. -/
def exitText : List Char := "-1\n".toList

/-- A visit to a module, with the items entered there. -/
inductive Visit where
  | qpid (items : List Item)
  | pg (items : List PgItem)

namespace Visit

/-- What the user types. -/
def text : Visit → List Char
  | .qpid items =>
    chosenText 0 [] ++ ((items.flatMap fun i => chosenText i.index i.answers) ++ exitText)
  | .pg items =>
    chosenText 1 [] ++ ((items.flatMap fun i => chosenText i.index i.answers) ++ exitText)

/-- The items of the visit. -/
def entries : Visit → List Entry
  | .qpid items => items.map .qpid
  | .pg items => items.map .pg

/-- All answers can be read back. -/
def WellFormed : Visit → Prop
  | .qpid items => ∀ i ∈ items, i.WellFormed
  | .pg items => ∀ i ∈ items, i.WellFormed

end Visit

/-- Visits to the modules, after which the user leaves the program. -/
abbrev Script := List Visit

namespace Script

/-- What the user types. -/
def text (σ : Script) : List Char := σ.flatMap Visit.text ++ exitText

/-- The items of the script. -/
def entries (σ : Script) : List Entry := σ.flatMap Visit.entries

/-- All answers can be read back. -/
def WellFormed (σ : Script) : Prop := ∀ v ∈ σ, v.WellFormed

end Script

/-! ### Reading one item -/

/-- What may be left of a line that was read. -/
def IsGap (gap : List Char) : Prop := gap = [] ∨ gap = ['\n']

theorem IsGap.space {gap : List Char} (h : IsGap gap) : ∀ c ∈ gap, isSpace c = true := by
  rcases h with rfl | rfl
  · simp
  · simp only [List.mem_singleton, forall_eq]
    decide

variable {gap rest : List Char} {str exchange : String}

theorem token_typed (hgap : IsGap gap) (h : IsWord str) :
    token ⟨gap ++ (typed str ++ rest), false, false⟩ = (str, ⟨'\n' :: rest, false, false⟩) := by
  have hword : Istream.word ⟨gap ++ (str.toList ++ '\n' :: rest), false, false⟩ isSpace =
      (str.toList, ⟨'\n' :: rest, false, false⟩) :=
    Istream.word_append hgap.space h.ne_nil h.not_space (by decide)
  rw [token, typed, List.append_assoc, List.singleton_append, hword]
  simp

/-- A token at the beginning of the next line. -/
theorem token_newline (h : IsWord str) :
    token ⟨'\n' :: (typed str ++ rest), false, false⟩ = (str, ⟨'\n' :: rest, false, false⟩) :=
  token_typed (Or.inr rfl : IsGap ['\n']) h

/-- A token at the beginning of this line. -/
theorem token_line (h : IsWord str) :
    token ⟨typed str ++ rest, false, false⟩ = (str, ⟨'\n' :: rest, false, false⟩) :=
  token_typed (Or.inl rfl : IsGap []) h

theorem message_typed (h : IsLine str) :
    message ⟨'\n' :: (typed str ++ rest), false, false⟩ = (str, ⟨rest, false, false⟩) := by
  have hline : Istream.line ⟨'\n' :: (str.toList ++ '\n' :: rest), false, false⟩ '\n' =
      (str.toList, ⟨rest, false, false⟩) := Istream.line_append List.not_mem_nil h
  rw [message, typed, List.append_assoc, List.singleton_append, hline]
  simp

theorem ignoreLine_newline :
    ignoreLine ⟨'\n' :: rest, false, false⟩ = ((), ⟨rest, false, false⟩) :=
  congrArg (Prod.mk ()) (Istream.ignore_append (l := []) List.not_mem_nil)

theorem Reading.bind_eq {α β : Type} {r : Reading α} {k : α → Reading β} {cin cin' : Istream Char}
    {a : α} (h : r cin = (a, cin')) : (r >>= k) cin = k a cin' := by
  change (match r cin with | (a, cin) => k a cin) = _
  rw [h]

/-- `r` reads the answers that are typed after the present line as `a`. -/
def Reading.Takes {α : Type} (r : Reading α) (answers : List String) (a : α) : Prop :=
  ∀ rest, ∃ gap, IsGap gap ∧ r ⟨'\n' :: (answers.flatMap typed ++ rest), false, false⟩ =
    (a, ⟨gap ++ rest, false, false⟩)

namespace Reading.Takes

variable {α : Type}

theorem nothing (a : α) : Takes (pure a) [] a := fun _ => ⟨['\n'], Or.inr rfl, rfl⟩

theorem oneToken {f : String → α} (h : IsWord exchange) :
    Takes (do return f (← token)) [exchange] (f exchange) := by
  refine fun rest => ⟨['\n'], Or.inr rfl, ?_⟩
  rw [List.flatMap_singleton, bind_eq (token_newline h)]
  rfl

theorem oneMessage {f : String → α} (h : IsLine str) :
    Takes (do return f (← message)) [str] (f str) := by
  refine fun rest => ⟨[], Or.inl rfl, ?_⟩
  rw [List.flatMap_singleton, bind_eq (message_typed h)]
  rfl

theorem tokenMessage {f : String → String → α} (he : IsWord exchange) (hm : IsLine str) :
    Takes (do return f (← token) (← message)) [exchange, str] (f exchange str) := by
  refine fun rest => ⟨[], Or.inl rfl, ?_⟩
  rw [List.flatMap_cons, List.flatMap_singleton, List.append_assoc, bind_eq (token_newline he),
    bind_eq (message_typed hm)]
  rfl

end Reading.Takes

open Reading in
/-- **The handlers of `cm_qpid.cpp` read the answers back.** -/
theorem Item.takes_answers (i : Item) (h : i.WellFormed) :
    ∃ reading, Item.input i.index = some reading ∧ reading.Takes i.answers i := by
  cases i with
  | sendMessage exchange message => exact ⟨_, rfl, .tokenMessage h.1 h.2⟩
  | sendMessageWithReplyAddress exchange message replyAddress =>
    obtain ⟨he, hm, hr⟩ := h
    refine ⟨_, rfl, fun rest => ⟨['\n'], Or.inr rfl, ?_⟩⟩
    simp only [answers, List.flatMap_cons, List.flatMap_nil, List.append_nil, List.append_assoc]
    rw [bind_eq (token_newline he), bind_eq (message_typed hm), bind_eq (token_line hr)]
    rfl
  | receiveMessagesAndReply exchange replyMessage => exact ⟨_, rfl, .tokenMessage h.1 h.2⟩
  | receiveMessagesAndPersist exchange =>
    refine ⟨_, rfl, fun rest => ⟨[], Or.inl rfl, ?_⟩⟩
    rw [answers, List.flatMap_singleton, bind_eq (token_newline h), bind_eq ignoreLine_newline]
    rfl
  | sendInvalidMessage exchange | receiveMessages exchange | receiveStop exchange =>
    exact ⟨_, rfl, .oneToken h⟩
  | sendMessage8Times message => exact ⟨_, rfl, .oneMessage h⟩
  | receiveMessage4Times | receiveStop4Times => exact ⟨_, rfl, .nothing _⟩

/-- **The handlers of `cm_pgclient.cpp` read the answers back.** -/
theorem PgItem.takes_answers (i : PgItem) (h : i.WellFormed) :
    ∃ reading, PgItem.input i.index = some reading ∧ reading.Takes i.answers i := by
  cases i with
  | persistMessage message | persistMessage4Times message => exact ⟨_, rfl, .oneMessage h⟩
  | persistMessageOnExchange exchange message => exact ⟨_, rfl, .tokenMessage h.1 h.2⟩
  | queryExchange exchange => exact ⟨_, rfl, .oneToken h⟩
  | readAllMessages | readAllMessages4Times => exact ⟨_, rfl, .nothing _⟩

/-! ### Reading a script -/

namespace Dialogue

/-- Reading on leads from `t` to `t'`. -/
def Leads (t t' : Dialogue) : Prop := ∃ n, advance^[n] t = t'

variable {t t' t'' : Dialogue} {pc pc' : MainPc} {w : List Char} {es : List Entry}

theorem Leads.refl (t : Dialogue) : t.Leads t := ⟨0, rfl⟩

theorem Leads.trans (h : t.Leads t') (h' : t'.Leads t'') : t.Leads t'' := by
  obtain ⟨n, rfl⟩ := h
  obtain ⟨m, rfl⟩ := h'
  exact ⟨m + n, Function.iterate_add_apply ..⟩

theorem Leads.step (h : t.advance = t') : t.Leads t' := ⟨1, h⟩

theorem not_space_of_all {w : List Char} (h : w.all (fun c => !isSpace c) = true) :
    ∀ c ∈ w, isSpace c = false := by
  simpa using h

/-- The number of an entry of a menu is one token. -/
theorem word_toDigits (hgap : IsGap gap) {idx : ℕ} (hidx : idx < 10) :
    Istream.word ⟨gap ++ (Nat.toDigits 10 idx ++ '\n' :: rest), false, false⟩ isSpace =
      (Nat.toDigits 10 idx, ⟨'\n' :: rest, false, false⟩) := by
  have hne : ∀ idx < 10, Nat.toDigits 10 idx ≠ [] := by decide
  have hspace : ∀ idx < 10, (Nat.toDigits 10 idx).all (fun c => !isSpace c) = true := by decide
  exact Istream.word_append hgap.space (hne idx hidx) (not_space_of_all (hspace idx hidx))
    (by decide)

theorem word_exit (hgap : IsGap gap) :
    Istream.word ⟨gap ++ (exitText ++ rest), false, false⟩ isSpace =
      ("-1".toList, ⟨'\n' :: rest, false, false⟩) :=
  Istream.word_append (w := "-1".toList) hgap.space (by decide) (not_space_of_all (by decide))
    (by decide)

/-- The number of an entry chooses the entry. -/
theorem choose_toDigits {len idx : ℕ} (hidx : idx < len) (hlen : len ≤ 10) :
    choose len (Nat.toDigits 10 idx) = .entry idx := by
  have h : ∀ len ≤ 10, ∀ idx < len, choose len (Nat.toDigits 10 idx) = .entry idx := by decide
  exact h len hlen idx hidx

theorem choose_exit (len : ℕ) : choose len "-1".toList = .exit := rfl

/-- A menu takes the word `w`. -/
theorem advance_word {cin cin' : Istream Char} (hword : cin.word isSpace = (w, cin'))
    (hread : pc.read w = some pc') : advance ⟨pc, cin, es⟩ = ⟨pc', (readToken pc cin es).1,
      (readToken pc cin es).2⟩ := by
  have h : pc.read (cin.word isSpace).1 = some pc' := by rw [hword]; exact hread
  exact advance_of_read ⟨pc, cin, es⟩ h

/-- A choice that enters no item of `cm_pgclient.cpp`. -/
theorem leads_word {cin cin' : Istream Char} (hword : cin.word isSpace = (w, cin'))
    (hread : pc.read w = some pc') (hchosen : PgItem.chosen pc w = none) :
    Leads ⟨pc, cin, es⟩ ⟨pc', cin', es⟩ := by
  refine .step ?_
  rw [advance_word hword hread]
  simp only [readToken, hword, hchosen]

/-- **An item of `cm_qpid.cpp`** is entered with the answers to its prompts. -/
theorem leads_qpid (hgap : IsGap gap) {i : Item} (hi : i.WellFormed) :
    ∃ gap', IsGap gap' ∧
      Leads ⟨.items 0, ⟨gap ++ (chosenText i.index i.answers ++ rest), false, false⟩, es⟩
        ⟨.items 0, ⟨gap' ++ rest, false, false⟩, es ++ [.qpid i]⟩ := by
  have hidx : i.index < 10 := by cases i <;> simp [Item.index]
  obtain ⟨reading, hreading, htakes⟩ := i.takes_answers hi
  obtain ⟨gap', hgap', heq⟩ := htakes rest
  refine ⟨gap', hgap', ?_⟩
  rw [chosenText, List.append_assoc, List.cons_append]
  have hread : (MainPc.items 0).read (Nat.toDigits 10 i.index) = some (.handler i.index) := by
    simp only [MainPc.read, MainPc.itemLen, if_true, choose_toDigits hidx le_rfl]
  refine (leads_word (word_toDigits hgap hidx) hread rfl).trans (.step ?_)
  simp only [advance, hreading, heq]

/-- **An item of `cm_pgclient.cpp`** is entered with the answers to its prompts. -/
theorem leads_pg (hgap : IsGap gap) {i : PgItem} (hi : i.WellFormed) :
    ∃ gap', IsGap gap' ∧
      Leads ⟨.items 1, ⟨gap ++ (chosenText i.index i.answers ++ rest), false, false⟩, es⟩
        ⟨.items 1, ⟨gap' ++ rest, false, false⟩, es ++ [.pg i]⟩ := by
  have hidx : i.index < 6 := by cases i <;> simp [PgItem.index]
  have hentry := choose_toDigits hidx (by omega)
  obtain ⟨reading, hreading, htakes⟩ := i.takes_answers hi
  obtain ⟨gap', hgap', heq⟩ := htakes rest
  refine ⟨gap', hgap', .step ?_⟩
  rw [chosenText, List.append_assoc, List.cons_append]
  have hword := @word_toDigits gap (i.answers.flatMap typed ++ rest) hgap i.index
    (hidx.trans (by omega))
  have hread : (MainPc.items 1).read (Nat.toDigits 10 i.index) = some (.items 1) := by
    simp [MainPc.read, MainPc.itemLen, hentry]
  have hchosen : PgItem.chosen (.items 1) (Nat.toDigits 10 i.index) = some reading := by
    simp [PgItem.chosen, MainPc.itemLen, hentry, hreading]
  rw [advance_word hword hread]
  simp only [readToken, hword, hchosen, heq]

/-- Items that are entered one by one are entered in their order. -/
theorem leads_items {ι : Type} {entry : ι → Entry} {itemText : ι → List Char} {items : List ι}
    (h : ∀ i ∈ items, ∀ gap rest es, IsGap gap → ∃ gap', IsGap gap' ∧
      Leads ⟨pc, ⟨gap ++ (itemText i ++ rest), false, false⟩, es⟩
        ⟨pc, ⟨gap' ++ rest, false, false⟩, es ++ [entry i]⟩)
    (hgap : IsGap gap) :
    ∃ gap', IsGap gap' ∧
      Leads ⟨pc, ⟨gap ++ (items.flatMap itemText ++ rest), false, false⟩, es⟩
        ⟨pc, ⟨gap' ++ rest, false, false⟩, es ++ items.map entry⟩ := by
  induction items generalizing gap es with
  | nil => exact ⟨gap, hgap, by simpa using Leads.refl _⟩
  | cons i items ih =>
    obtain ⟨gap₁, hgap₁, h₁⟩ :=
      h i List.mem_cons_self gap (items.flatMap itemText ++ rest) es hgap
    obtain ⟨gap', hgap', h₂⟩ := @ih gap₁ (es ++ [entry i])
      (fun j hj => h j (List.mem_cons_of_mem _ hj)) hgap₁
    refine ⟨gap', hgap', ?_⟩
    rw [List.flatMap_cons, List.append_assoc, List.map_cons, ← List.singleton_append,
      ← List.append_assoc es]
    exact h₁.trans h₂

/-- A module is entered, its items, and it is left. -/
theorem leads_module {m : ℕ} (hm : m < 2) (hgap : IsGap gap) {itemsText : List Char}
    {es₁ : List Entry}
    (h : ∀ gap rest, IsGap gap → ∃ gap', IsGap gap' ∧
      Leads ⟨.items m, ⟨gap ++ (itemsText ++ rest), false, false⟩, es⟩
        ⟨.items m, ⟨gap' ++ rest, false, false⟩, es₁⟩) :
    ∃ gap', IsGap gap' ∧
      Leads ⟨.modules, ⟨gap ++ (chosenText m [] ++ (itemsText ++ exitText) ++ rest), false, false⟩,
        es⟩ ⟨.modules, ⟨gap' ++ rest, false, false⟩, es₁⟩ := by
  have hread : MainPc.modules.read (Nat.toDigits 10 m) = some (.items m) := by
    simp only [MainPc.read, choose_toDigits hm (by omega)]
  obtain ⟨gap₁, hgap₁, h₁⟩ := h ['\n'] (exitText ++ rest) (Or.inr rfl)
  have hexit : (MainPc.items m).read "-1".toList = some .modules := by
    rw [MainPc.read, choose_exit]
  have hchosen : PgItem.chosen (.items m) "-1".toList = none := by
    simp only [PgItem.chosen, choose_exit]
    exact ite_self _
  refine ⟨['\n'], Or.inr rfl, ?_⟩
  have htext : chosenText m [] ++ (itemsText ++ exitText) ++ rest =
      Nat.toDigits 10 m ++ '\n' :: (itemsText ++ (exitText ++ rest)) := by
    simp [chosenText]
  rw [htext]
  refine (leads_word (word_toDigits hgap (by omega)) hread rfl).trans ?_
  exact h₁.trans (leads_word (word_exit hgap₁) hexit hchosen)

/-- A visit is made as it is typed. -/
theorem leads_visit (hgap : IsGap gap) {v : Visit} (hv : v.WellFormed) :
    ∃ gap', IsGap gap' ∧
      Leads ⟨.modules, ⟨gap ++ (v.text ++ rest), false, false⟩, es⟩
        ⟨.modules, ⟨gap' ++ rest, false, false⟩, es ++ v.entries⟩ := by
  cases v with
  | qpid items =>
    exact leads_module (by omega) hgap fun gap rest hgap =>
      leads_items (fun i hi _ _ _ hgap => leads_qpid hgap (hv i hi)) hgap
  | pg items =>
    exact leads_module (by omega) hgap fun gap rest hgap =>
      leads_items (fun i hi _ _ _ hgap => leads_pg hgap (hv i hi)) hgap

/-- Visits are made in their order. -/
theorem leads_visits {vs : List Visit} (hvs : ∀ v ∈ vs, v.WellFormed) (hgap : IsGap gap) :
    ∃ gap', IsGap gap' ∧
      Leads ⟨.modules, ⟨gap ++ (vs.flatMap Visit.text ++ rest), false, false⟩, es⟩
        ⟨.modules, ⟨gap' ++ rest, false, false⟩, es ++ vs.flatMap Visit.entries⟩ := by
  induction vs generalizing gap es with
  | nil => exact ⟨gap, hgap, by simpa using Leads.refl _⟩
  | cons v vs ih =>
    obtain ⟨hv, hvs⟩ := List.forall_mem_cons.1 hvs
    obtain ⟨gap₁, hgap₁, h₁⟩ := @leads_visit gap (vs.flatMap Visit.text ++ rest) es hgap v hv
    obtain ⟨gap', hgap', h₂⟩ := @ih gap₁ (es ++ v.entries) hvs hgap₁
    refine ⟨gap', hgap', ?_⟩
    rw [List.flatMap_cons, List.append_assoc, List.flatMap_cons, ← List.append_assoc es]
    exact h₁.trans h₂

/-- A dialogue in which `main` has returned is over. -/
theorem advance_of_returned {t : Dialogue} (h : t.pc.returned = true) : t.advance = t := by
  obtain ⟨pc, cin, entered⟩ := t
  cases pc <;> first | rfl | cases h

end Dialogue

/-- **The reads of the main thread give back the script**, and then `main` returns. -/
theorem Script.reaches {σ : Script} (hσ : σ.WellFormed) :
    ∃ n, (Dialogue.advance^[n] (.start σ.text)).pc.returned = true ∧
      (Dialogue.advance^[n] (.start σ.text)).entered = σ.entries := by
  obtain ⟨gap, hgap, hvisits⟩ :=
    @Dialogue.leads_visits [] exitText [] σ hσ (Or.inl rfl)
  have hexit : MainPc.modules.read "-1".toList = some (.destroy staticObjects.reverse) := rfl
  obtain ⟨n, hn⟩ := hvisits.trans
    (Dialogue.leads_word (@Dialogue.word_exit gap [] hgap) hexit rfl)
  refine ⟨n, ?_⟩
  rw [List.nil_append, List.nil_append] at hn
  rw [Dialogue.start, text, hn]
  exact ⟨rfl, rfl⟩

/-- The calls of a script. -/
def Script.commands (σ : Script) : List Command := σ.entries.flatMap Entry.commands

/-- **A script is executed as it was typed.**  In every run of the program with the text of a script
as standard input, whatever the workers, the broker and the connectors do, the main thread enters
the items of the script in their order, with the answers the user gave, and makes the calls of their
handlers; when `main` returns, all of them were made. -/
theorem script_executed (parse : AddressParser) {σ : Script} (hσ : σ.WellFormed) {s : Terminal}
    (h : (terminal parse).Reachable (.start σ.text) s) :
    s.entered <+: σ.entries ∧ s.called <+: σ.commands ∧
      (s.program.main.returned = true → s.entered = σ.entries ∧ s.called = σ.commands) := by
  obtain ⟨N, hreturned, hentries⟩ := Script.reaches hσ
  have hfixed := Dialogue.advance_of_returned hreturned
  obtain ⟨n, hn⟩ := exists_shows h
  have hentered : s.entered <+: σ.entries := by
    rw [hn.entered, ← hentries]
    exact Dialogue.grows_entered.prefix_of_fixed hfixed n
  refine ⟨hentered, (called_of_entered h).trans (commands_of_entered hentered), fun hret => ?_⟩
  have hne : s.program.main ≠ .terminated := by
    intro hmain
    rw [hmain] at hret
    cases hret
  have hpc : (Dialogue.advance^[n] (.start σ.text)).pc.returned = true := by
    rw [hn.pc hne]
    cases hmain : s.program.main <;> rw [hmain] at hret <;> first | rfl | cases hret
  have heq : s.entered = σ.entries := by
    rw [hn.entered, ← hentries, eq_of_fixed (Dialogue.advance_of_returned hpc) hfixed]
  obtain ⟨lost, hissued, hlost⟩ := issued_reachable h
  have hpending : s.program.main.pending = [] := by
    cases hmain : s.program.main <;> rw [hmain] at hret <;> first | rfl | cases hret
  rw [hlost hne, hpending, List.append_nil, List.append_nil, heq] at hissued
  exact ⟨heq, hissued⟩

/-- A script that sends a message with blanks and stops the receivers of the examples. -/
def exampleScript : Script :=
  [.qpid [.sendMessage "send-queue" " two words ", .receiveStop4Times], .pg [.readAllMessages]]

theorem exampleScript_wellFormed : exampleScript.WellFormed := by
  have hitem : (Item.sendMessage "send-queue" " two words ").WellFormed :=
    ⟨⟨by decide, Dialogue.not_space_of_all (by decide)⟩, by unfold IsLine; decide⟩
  refine List.forall_mem_cons.2 ⟨?_, List.forall_mem_singleton.2 ?_⟩
  · exact List.forall_mem_cons.2 ⟨hitem, List.forall_mem_singleton.2 trivial⟩
  · exact List.forall_mem_singleton.2 trivial

/-- The script after its first call. -/
theorem script_executed_example : ∃ s,
    (terminal plainName).run (.start exampleScript.text)
      (itemLabels (.sendMessage "send-queue" " two words ") ++ [.main, .main]) = some s ∧
    s.called ≠ [] ∧ s.called <+: exampleScript.commands := by
  have hrun : ∃ s, (terminal plainName).run (.start exampleScript.text)
      (itemLabels (.sendMessage "send-queue" " two words ") ++ [.main, .main]) = some s ∧
      s.called ≠ [] := ⟨_, rfl, by decide⟩
  obtain ⟨s, hs, hcalled⟩ := hrun
  exact ⟨s, hs, hcalled,
    (script_executed plainName exampleScript_wellFormed (Machine.reachable_of_run hs)).2.1⟩

end Comyno
