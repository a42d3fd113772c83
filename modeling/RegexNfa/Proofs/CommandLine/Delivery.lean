import RegexNfa.Proofs.CommandLine.Lines
import RegexNfa.Proofs.CommandLine.Positionals

/-!
# What the reader delivers

The commands are told about with no more known of the reader than `Reader.Delivers`, and `readWords` is such a reader
(`readWords_delivers`).  `Given.Holds` follows what is given through the items of a line, so no positional gets lost,
comes twice or changes its place, wherever the options stand; who gets which is decided once, at the end of the line.
-/

namespace RegexNfa

namespace CommandLine

variable {command : CommandName} {g g' : Given} {items rest : List Item} {item : Item}

/-! ## What is given after some items -/

/-- What is given by the items, and nothing else. -/
structure Given.Holds (command : CommandName) (g : Given) (items : List Item) : Prop where
  positionals : g.positionals = Item.positionals items
  room : ∀ n < g.positionals.length, command.hasRoom n = true
  file : ∀ path, g.file = some path ↔ .option .file (some path) ∈ items

lemma Item.positionals_append : Item.positionals (items ++ rest) = Item.positionals items ++ Item.positionals rest :=
  List.filterMap_append

lemma Given.holds_nil : Given.Holds command {} [] where
  positionals := rfl
  room := by simp
  file := by simp

/-- Only `-f` gives a file. -/
lemma Given.enter_file {s : Switch} {value : Option String} (h : g.enter s value = .ok g') (path : String) :
    g'.file = some path ↔ g.file = some path ∨ (s = .file ∧ value = some path) := by
  obtain ⟨v, rfl, rfl, hnone, rfl⟩ | ⟨choice, rfl, rfl⟩ | ⟨rfl, rfl⟩ | ⟨hs, rfl⟩ := Given.enter_cases h
  · simp [hnone]
  · simp
  · simp
  · simp [hs]

/-- The step lemma: an item adds what it gives. -/
lemma Given.Holds.enter (h : g.Holds command items) (henter : item.enter command g = .ok g') :
    g'.Holds command (items ++ [item]) := by
  cases item with
  | positional w =>
    rw [Item.enter] at henter
    split_ifs at henter with hroom
    obtain rfl := Except.ok.inj henter
    refine ⟨?_, ?_, ?_⟩
    · rw [Item.positionals_append, ← h.positionals]
      rfl
    · intro n hn
      rw [List.length_append, List.length_singleton] at hn
      rcases Nat.lt_succ_iff_lt_or_eq.1 hn with hn | rfl
      · exact h.room n hn
      · exact hroom
    · intro path
      simpa using h.file path
  | option s value =>
    have hsame : g'.positionals = g.positionals := Given.enter_positionals henter
    refine ⟨?_, ?_, ?_⟩
    · rw [hsame, h.positionals, Item.positionals_append]
      exact (List.append_nil _).symm
    · rw [hsame]
      exact h.room
    · intro path
      rw [Given.enter_file henter, h.file, List.mem_append, List.mem_singleton, Item.option.injEq]
      simp only [eq_comm]

/-- The run lemma. -/
theorem Given.Holds.enterAll (h : g.Holds command items) (henter : g.enterAll command rest = .ok g') :
    g'.Holds command (items ++ rest) := by
  induction rest generalizing g items with
  | nil =>
    obtain rfl := Except.ok.inj henter
    rw [List.append_nil]
    exact h
  | cons item rest ih =>
    rw [Given.enterAll, List.foldlM_cons] at henter
    obtain ⟨next, hnext, henter⟩ := Refusal.bind_eq_ok.1 henter
    rw [List.append_cons]
    exact ih (h.enter hnext) henter

/-! ## Delivery -/

/-- The positionals are divided, and the options stay as they are. -/
lemma Given.Holds.deliver (h : g.Holds command items) : g.deliver.Carries command items where
  first := congrArg List.head? h.positionals
  others := congrArg List.tail h.positionals
  room := h.positionals ▸ h.room
  file := h.file

variable {words : List String} {given : Arguments}

lemma readWords_eq_ok : readWords words = .ok (command, given) ↔ ∃ name rest g, words = name :: rest ∧
    CommandName.ofWord? name = some command ∧ Given.ofWords command rest = .ok g ∧ g.deliver = given := by
  constructor
  · intro h
    cases words with
    | nil => exact absurd h (by simp [readWords])
    | cons name rest =>
      rw [readWords] at h
      split_ifs at h
      split at h
      · next command' hname =>
        cases hgiven : Given.ofWords command' rest with
        | error refusal =>
          rw [hgiven] at h
          exact absurd h (by simp)
        | ok g =>
          rw [hgiven] at h
          obtain ⟨rfl, hdeliver⟩ := Prod.mk.inj (Except.ok.inj h)
          exact ⟨name, rest, g, rfl, hname, hgiven, hdeliver⟩
      · exact absurd h (by simp)
  · rintro ⟨name, rest, g, rfl, hname, hgiven, rfl⟩
    have hhelp : name ≠ "help" := by
      rintro rfl
      exact Option.some_ne_none command hname.symm
    rw [readWords, if_neg hhelp, hname]
    simp only [hgiven]
    rfl

theorem readWords_delivers : Reader.Delivers readWords where
  spelled h := by
    obtain ⟨name, rest, g, rfl, hname, hgiven, _⟩ := readWords_eq_ok.1 h
    obtain ⟨items, hline⟩ := exists_line_of_ofWords hgiven
    exact ⟨name, rest, items, rfl, hname, hline⟩
  inOrder h hline := by
    obtain ⟨name, rest, g, hwords, _, hgiven, rfl⟩ := readWords_eq_ok.1 h
    obtain ⟨rfl, rfl⟩ := List.cons.inj hwords
    exact (Given.holds_nil.enterAll (enterAll_of_line hline hgiven)).deliver
  afterSeparator {name options command given ps} h hnone hoptions hroom := by
    obtain ⟨_, _, g, hwords, hname, hgiven, rfl⟩ := readWords_eq_ok.1 h
    obtain ⟨rfl, rfl⟩ := List.cons.inj hwords
    have hpositionals : g.positionals = [] := List.head?_eq_none_iff.1 hnone
    have hmore : Given.ofWords command (options ++ "--" :: ps) =
        .ok { g with positionals := g.positionals ++ ps } := by
      apply Given.ofWords_append hgiven hoptions
      rw [hpositionals, List.length_nil, Nat.zero_add]
      exact hroom
    rw [hpositionals, List.nil_append] at hmore
    exact readWords_eq_ok.2 ⟨name, _, _, rfl, hname, hmore, rfl⟩

end CommandLine

end RegexNfa
