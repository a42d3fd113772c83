import RegexNfa.Proofs.Compilation.Acceptance
import RegexNfa.Proofs.Compilation.Layout
import RegexNfa.Proofs.Compilation.Log
import RegexNfa.Proofs.Expression.Tally
import RegexNfa.Proofs.Text.Lines

/-!
# Listings and logs by line

A listing is written with one line for each state, and a log with one for each rule.  Everything in them is visible but
the characters of edges and of character rules, which are written as they are.  Each literal of an expression stands on
one edge and in one rule, so a line break in the expression is one break too many in either text
(`breaks_listing`, `breaks_dumpLog`), and without one both can be read by line (`read_by_line_iff`).
-/

namespace RegexNfa

lemma breaks_singleton (c : Char) : breaks (String.singleton c) = [c].count '\n' := by
  rw [breaks, String.toList_singleton]

/-! ## Listed states -/

namespace Listing

lemma name_off (id : Nat) : name .off id = Graph.stateName id :=
  Palette.paint_off _

/-- A group breaks its line if it is that of the line break. -/
lemma breaks_group (g : Symbol × List Nat) : breaks (group .off g) = g.1.char?.toList.count '\n' := by
  obtain ⟨symbol, targets⟩ := g
  have hblank : breaks " " = 0 := by decide
  have harrow : breaks " → " = 0 := by decide
  have hnames : breaks (", ".intercalate (targets.map (name .off))) = 0 := by
    rw [breaks_intercalate (by decide), breaks_join_eq_zero_iff, List.forall_mem_map]
    intro id _
    rw [← breaks_eq_zero_iff, name_off, breaks_stateName]
  have hsymbol : breaks (Listing.symbol .off symbol) = symbol.char?.toList.count '\n' := by
    cases symbol with
    | epsilon => decide
    | char c => exact breaks_singleton c
  rw [group, breaks_append, breaks_append, breaks_append, hblank, harrow, hnames, hsymbol, Nat.zero_add, Nat.add_zero]

lemma breaks_marks (start : Nat) (s : State) : breaks (marks .off start s) = 0 := by
  unfold marks
  split <;> split <;> decide

lemma breaks_edges (s : State) : breaks (edges .off s) = (s.groups.filterMap (·.1.char?)).count '\n' := by
  unfold edges
  split
  · next hnone =>
    rw [State.groups, List.isEmpty_iff.1 hnone]
    decide
  · rw [breaks_intercalate (by decide), breaks_join_map fun g _ => breaks_group g, List.filterMap_eq_flatMap_toList]

/-- A line is broken by the characters of its groups. -/
lemma breaks_line (start : Nat) (s : State) :
    breaks (line .off start s) = (s.groups.filterMap (·.1.char?)).count '\n' := by
  have hcolon : breaks ":" = 0 := by decide
  rw [line, breaks_append, breaks_append, breaks_append, name_off, breaks_stateName, breaks_marks, hcolon, breaks_edges,
    Nat.zero_add]

/-- A line begins with the name of its state. -/
lemma stateName_starts_line (start : Nat) (s : State) :
    (Graph.stateName s.id).toList <+: (line .off start s).toList := by
  rw [line, name_off, String.toList_append, String.toList_append, String.toList_append, List.append_assoc,
    List.append_assoc]
  exact List.prefix_append _ _

end Listing

namespace Expression

/-- In a state of an expression no character stands on two edges. -/
lemma Inner.characters_groups {stop : Nat} {s : State} (h : Inner stop s) :
    s.groups.filterMap (·.1.char?) = s.edges.filterMap (·.1.char?) := by
  cases h <;> simp [State.groups, grouped, firstSeen, Symbol.char?]

lemma characters_groups_layout (n : Nat) (e : Expression) :
    ∀ s ∈ e.layout n [], s.groups.filterMap (·.1.char?) = s.edges.filterMap (·.1.char?) := by
  intro s hs
  rcases List.mem_append.1 hs with hs | hs
  · exact (e.inner_of_mem_body n s hs).characters_groups
  · rw [List.mem_singleton.1 hs]
    rfl

end Expression

namespace Automaton

variable {m : Automaton} {e : Expression}

lemma listing_eq_asLines (m : Automaton) :
    m.listing .off = asLines (m.states.map (Listing.line .off m.start)) := by
  rw [asLines, List.map_map]
  rfl

/-- Each literal that is a line break breaks a line. -/
lemma LaidOut.breaks_listing (hm : m.LaidOut e) :
    breaks (m.listing .off) = m.size + e.literals.count '\n' := by
  have hlines : ∀ s ∈ m.states,
      breaks (Listing.line .off m.start s) = (s.edges.filterMap (·.1.char?)).count '\n' := by
    intro s hs
    rw [hm.states_eq] at hs
    rw [Listing.breaks_line, e.characters_groups_layout 0 s hs]
  rw [listing_eq_asLines, breaks_asLines, List.length_map, breaks_join_map hlines, hm.states_eq, e.characters_layout,
    size, hm.states_eq]

lemma listing_by_line_iff (m : Automaton) :
    OnePerLine ((List.range m.size).map Graph.stateName) (m.listing .off) ↔ breaks (m.listing .off) = m.size := by
  have hstarts : List.Forall₂ (fun head line => head.toList <+: line.toList)
      ((List.range m.size).map Graph.stateName) (m.states.map (Listing.line .off m.start)) := by
    rw [size, ← m.ids_eq, List.map_map, List.forall₂_map_left_iff, List.forall₂_map_right_iff, List.forall₂_same]
    intro s _
    exact Listing.stateName_starts_line m.start s
  rw [listing_eq_asLines, onePerLine_asLines_iff hstarts, List.length_map, List.length_range]

end Automaton

/-! ## Logged rules -/

lemma Rule.breaks_describe (rule : Rule) : breaks rule.describe = rule.literal?.toList.count '\n' := by
  cases rule with
  | char c entry exit =>
    show breaks ("char '" ++ String.singleton c ++ ("': S" ++ toString entry ++ " → S" ++ toString exit)) =
      [c].count '\n'
    have hfront : breaks "char '" = 0 := by decide
    have hback : breaks "': S" + breaks " → S" = 0 := by decide
    simp only [breaks_append, breaks_toString, breaks_singleton, hfront, hback, Nat.zero_add, Nat.add_zero]
  | concat source target =>
    show breaks ("concat: S" ++ toString source ++ " → S" ++ toString target) = 0
    simp only [breaks_append, breaks_toString, Nat.add_zero]
    decide
  | union entry exit =>
    show breaks ("union: S" ++ toString entry ++ " (start), S" ++ toString exit ++ " (accept)") = 0
    simp only [breaks_append, breaks_toString, Nat.add_zero]
    decide
  | star entry exit =>
    show breaks ("star: S" ++ toString entry ++ " (start), S" ++ toString exit ++ " (accept)") = 0
    simp only [breaks_append, breaks_toString, Nat.add_zero]
    decide

namespace Compilation

variable {c : Compilation}

/-- How the line of a rule begins. -/
def number (i : Nat) : String := s!"{i + 1}."

/-- A rule with its number. -/
def entry (x : Rule × Nat) : String := s!"{x.2 + 1}. " ++ x.1.describe

lemma entry_eq (x : Rule × Nat) : entry x = number x.2 ++ (" " ++ x.1.describe) := by
  show toString (x.2 + 1) ++ ". " ++ x.1.describe = toString (x.2 + 1) ++ "." ++ (" " ++ x.1.describe)
  have hdot : ". " = "." ++ " " := by decide
  rw [hdot, String.append_assoc, String.append_assoc, String.append_assoc]

lemma dumpLog_eq_asLines (c : Compilation) : c.dumpLog = asLines (c.log.zipIdx.map entry) := by
  rw [asLines, List.map_map]
  rfl

lemma breaks_entry (x : Rule × Nat) : breaks (entry x) = x.1.literal?.toList.count '\n' := by
  show breaks (toString (x.2 + 1) ++ ". " ++ x.1.describe) = _
  have hdot : breaks ". " = 0 := by decide
  rw [breaks_append, breaks_append, breaks_toString, hdot, x.1.breaks_describe, Nat.zero_add]

lemma breaks_dumpLog (c : Compilation) :
    breaks c.dumpLog = c.log.length + (c.log.filterMap Rule.literal?).count '\n' := by
  have hentries := breaks_join_map fun x (_ : x ∈ c.log.zipIdx) => breaks_entry x
  rw [dumpLog_eq_asLines, breaks_asLines, List.length_map, List.length_zipIdx, hentries,
    List.filterMap_eq_flatMap_toList, ← List.zipIdx_map_fst 0 c.log, List.flatMap_map, List.zipIdx_map_fst]

lemma dumpLog_by_line_iff (c : Compilation) :
    OnePerLine ((List.range c.log.length).map number) c.dumpLog ↔ breaks c.dumpLog = c.log.length := by
  have hstarts : List.Forall₂ (fun head line => head.toList <+: line.toList)
      ((List.range c.log.length).map number) (c.log.zipIdx.map entry) := by
    rw [List.range_eq_range', ← List.zipIdx_map_snd 0 c.log, List.map_map, List.forall₂_map_left_iff,
      List.forall₂_map_right_iff, List.forall₂_same]
    intro x _
    rw [Function.comp_apply, entry_eq, String.toList_append]
    exact List.prefix_append _ _
  rw [dumpLog_eq_asLines, onePerLine_asLines_iff hstarts, List.length_map, List.length_range]

end Compilation

/-! ## Compiled expressions -/

namespace Token

variable {text : List Char} {t : Token}

/-- The character of a literal, if it can be read. -/
def char? (text : List Char) (t : Token) : Option Char :=
  (t.literal? text).toOption.join

lemma char?_of_asksFor {rule : Rule} (h : t.AsksFor text rule) : t.char? text = rule.literal? := by
  rw [char?, h.2]
  rfl

end Token

/-- The rules that the tokens of a tree ask for have its literals, in order. -/
lemma ParseTree.filterMap_char? {text : List Char} {tree : ParseTree} (hread : tree.ReadFrom text) :
    tree.listing.filterMap (Token.char? text) = tree.expression.literals := by
  induction tree with
  | literal c place =>
    have hchar : Token.char? text ⟨.literal, .ofChar place c⟩ = some c := by
      rw [Token.char?, hread]
      rfl
    rw [listing, List.filterMap_cons, hchar]
    rfl
  | concat l r place ihl ihr =>
    rw [listing, List.filterMap_append, List.filterMap_append, ihl hread.1, ihr hread.2]
    exact List.append_nil _
  | union l r place ihl ihr =>
    rw [listing, List.filterMap_append, List.filterMap_append, ihl hread.1, ihr hread.2]
    exact List.append_nil _
  | star e place ih =>
    rw [listing, List.filterMap_append, ih hread]
    exact List.append_nil _

/-- A line break is a literal wherever it stands. -/
lemma Spells.count_literals {text : List Char} {tree : ParseTree} (h : Spells text tree) :
    tree.expression.literals.count '\n' = text.count '\n' := by
  rw [← h.tally.1, TokenKind.among, List.count_filter (by decide)]

variable {source : String} {c : Compilation} {logging : Bool}

lemma filterMap_literal?_log {tree : ParseTree} (h : Spells source.toList tree)
    (hcompile : compile source true = .ok c) : c.log.filterMap Rule.literal? = tree.expression.literals := by
  obtain ⟨hasks, _⟩ := exists_replay hcompile
  obtain ⟨_, _, _, _, _, hreordered, _⟩ := exists_built hcompile
  have htokens : c.reordered.tokens = tree.listing := by
    rw [hreordered]
    exact Token.postfixed_ofText h
  have hrules : c.reordered.tokens.map (Token.char? source.toList) = c.log.map Rule.literal? := by
    rw [← List.forall₂_eq_eq_eq, List.forall₂_map_left_iff, List.forall₂_map_right_iff]
    exact hasks.imp fun _ _ => Token.char?_of_asksFor
  have hboth := congrArg (List.filterMap id) hrules
  rw [List.filterMap_map, List.filterMap_map, Function.id_comp, Function.id_comp] at hboth
  rw [← hboth, htokens, ParseTree.filterMap_char? h.readFrom]

/-- An expression that compiles is listed by line, and so is the log of its rules, exactly if it has no line break:
each line break is a literal, and each literal is written once in either text. -/
theorem read_by_line_iff (h : compile source logging = .ok c) :
    breaks (c.automaton.listing .off) = c.automaton.size + breaks source ∧
    (OnePerLine ((List.range c.automaton.size).map fun i => s!"S{i}") (c.automaton.listing .off) ↔
      '\n' ∉ source.toList) ∧
    (logging = true →
      breaks c.dumpLog = c.log.length + breaks source ∧
      (OnePerLine ((List.range c.log.length).map fun i => s!"{i + 1}.") c.dumpLog ↔ '\n' ∉ source.toList)) := by
  obtain ⟨tree, htree⟩ := (exists_compile_iff_spells source logging).1 ⟨c, h⟩
  obtain ⟨c', hcompile, hlaid, _⟩ := compile_laid_out htree logging
  obtain rfl : c = c' := Except.ok.inj (h.symm.trans hcompile)
  have hlisting := hlaid.breaks_listing
  rw [htree.count_literals, ← breaks] at hlisting
  refine ⟨hlisting, ?_, ?_⟩
  · rw [← breaks_eq_zero_iff]
    refine c.automaton.listing_by_line_iff.trans ?_
    rw [hlisting, Nat.add_eq_left]
  · rintro rfl
    have hlog := c.breaks_dumpLog
    rw [filterMap_literal?_log htree h, htree.count_literals, ← breaks] at hlog
    refine ⟨hlog, ?_⟩
    rw [← breaks_eq_zero_iff]
    refine c.dumpLog_by_line_iff.trans ?_
    rw [hlog, Nat.add_eq_left]

lemma exists_compile_of_map {α : Type} {figures : Compilation → α} {x : α}
    (h : (compile source logging).map figures = .ok x) : ∃ c, compile source logging = .ok c ∧ figures c = x := by
  cases hcompile : compile source logging with
  | ok c =>
    rw [hcompile] at h
    exact ⟨c, rfl, Except.ok.inj h⟩
  | error failure =>
    rw [hcompile] at h
    exact nomatch h

/-- A tab and a character of two bytes are written as they are and break nothing. -/
theorem read_by_line_iff_tab :
    ∃ c, compile "(é|\t)*" true = .ok c ∧ c.automaton.size = 8 ∧ c.log.length = 4 ∧
      OnePerLine ["S0", "S1", "S2", "S3", "S4", "S5", "S6", "S7"] (c.automaton.listing .off) ∧
      OnePerLine ["1.", "2.", "3.", "4."] c.dumpLog := by
  have hmap : (compile "(é|\t)*" true).map (fun c => (c.automaton.size, c.log.length)) = .ok (8, 4) := by decide
  obtain ⟨c, hcompile, hfigures⟩ := exists_compile_of_map hmap
  obtain ⟨hsize, hlength⟩ := Prod.mk.inj hfigures
  obtain ⟨_, hlisting, hlog⟩ := read_by_line_iff hcompile
  obtain ⟨_, hlog⟩ := hlog rfl
  rw [hsize] at hlisting
  rw [hlength] at hlog
  exact ⟨c, hcompile, hsize, hlength, hlisting.2 (by decide), hlog.2 (by decide)⟩

/-- The expression is a line break, and so the line of its entry and that of its rule fall into two. -/
theorem line_break_splits_lines :
    ∃ c, compile "\n" true = .ok c ∧ c.automaton.size = 2 ∧ c.log.length = 1 ∧
      c.automaton.listing .off = "S0 (start): \n → S1\nS1 (accept): ∅\n" ∧
      c.dumpLog = "1. char '\n': S0 → S1\n" ∧
      ¬ OnePerLine ["S0", "S1"] (c.automaton.listing .off) ∧ ¬ OnePerLine ["1."] c.dumpLog := by
  have hmap : (compile "\n" true).map (fun c => (c.automaton.size, c.log.length, c.automaton.listing .off,
      c.dumpLog)) = .ok (2, 1, "S0 (start): \n → S1\nS1 (accept): ∅\n", "1. char '\n': S0 → S1\n") := by decide
  obtain ⟨c, hcompile, hfigures⟩ := exists_compile_of_map hmap
  obtain ⟨hsize, hfigures⟩ := Prod.mk.inj hfigures
  obtain ⟨hlength, hfigures⟩ := Prod.mk.inj hfigures
  obtain ⟨hlisting, hlog⟩ := Prod.mk.inj hfigures
  have hlisted := c.automaton.listing_by_line_iff
  have hlogged := c.dumpLog_by_line_iff
  rw [hsize, hlisting] at hlisted
  rw [hlength, hlog] at hlogged
  refine ⟨c, hcompile, hsize, hlength, hlisting, hlog, ?_, ?_⟩
  · rw [hlisting]
    exact fun h => absurd (hlisted.1 h) (by decide)
  · rw [hlog]
    exact fun h => absurd (hlogged.1 h) (by decide)

end RegexNfa
