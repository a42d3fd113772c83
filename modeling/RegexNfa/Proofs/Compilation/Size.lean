import RegexNfa.Proofs.Automaton.Summary
import RegexNfa.Proofs.Compilation.Layout
import RegexNfa.Proofs.Expression.Tally

/-!
# The size of a compiled automaton

How many states and edges the automaton of an expression has depends on the number of literals, unions and
repetitions in the text and on nothing else, and none of them is superfluous: the start leads to every state,
every state leads to the accepting one, and no two edges join the same states.  So the summary figures, which are
taken from what is reachable and from merged edges, are the true ones.
-/

namespace RegexNfa

namespace Automaton

variable {m : Automaton} {e : Expression}

lemma LaidOut.size_eq (hm : m.LaidOut e) : m.size = e.size := by
  rw [size, hm.states_eq, e.length_layout]

lemma LaidOut.length_edgeEnds (hm : m.LaidOut e) :
    m.edgeEnds.length + 1 = 2 * e.literals.length + 3 * e.unions + 4 * e.stars := by
  rw [m.length_edgeEnds, hm.states_eq, e.length_edges_layout]

lemma LaidOut.nodup_edgeEnds (hm : m.LaidOut e) : m.edgeEnds.Nodup := by
  apply Automaton.nodup_edgeEnds
  rw [hm.states_eq]
  exact e.nodup_targets_layout 0

lemma LaidOut.mem_alphabet (hm : m.LaidOut e) {c : Char} : c ∈ m.alphabet ↔ c ∈ e.literals := by
  rw [Automaton.mem_alphabet, hm.states_eq, e.characters_layout]

end Automaton

variable {source : String} {tree : ParseTree}

/-- The automaton of a text with `l` literals, `u` unions and `s` repetitions has `2 * (l + u + s)` states, each
reachable and each leading to the accepting state, and `2 * l - 1 + 3 * u + 4 * s` edges, no two of them between
the same states.  The summary counts all of them, and its alphabet is the set of literals of the text. -/
theorem automaton_size_law {l u s : Nat} (h : Spells source.toList tree) (logging : Bool)
    (hl : (TokenStream.ofText source.toList).number .literal = l)
    (hu : (TokenStream.ofText source.toList).number .union = u)
    (hs : (TokenStream.ofText source.toList).number .star = s) :
    ∃ c, compile source logging = .ok c ∧
      c.automaton.size = 2 * (l + u + s) ∧
      (∃ order, c.automaton.reachable = .ok order ∧ order.Perm (List.range c.automaton.size)) ∧
      (∀ id < c.automaton.size, Leads c.automaton.states id c.automaton.accept) ∧
      c.automaton.edgeEnds.length = 2 * l - 1 + 3 * u + 4 * s ∧
      c.automaton.edgeEnds.Nodup ∧
      ∃ figures, c.summary = .ok figures ∧ figures.states = c.automaton.size ∧
        figures.transitions = c.automaton.edgeEnds.length ∧ figures.alphabet.Pairwise (· < ·) ∧
        ∀ ch, ch ∈ figures.alphabet ↔ ch ∈ source.toList ∧ TokenKind.ofChar ch = .literal := by
  obtain ⟨c, hcompile, hlaid, f, a, hgrown, hfrozen⟩ := compile_laid_out h logging
  have hclosed := hfrozen.closed hgrown
  have hreached : ∀ id < c.automaton.size, Leads c.automaton.states c.automaton.start id :=
    fun _ hid => hfrozen.leads_from_start hgrown hid
  have hleading : ∀ id < c.automaton.size, Leads c.automaton.states id c.automaton.accept :=
    fun id hid => hfrozen.leads_to_accept hgrown (hreached id hid)
  obtain ⟨hliterals, hunions, hstars⟩ := Derives.tally h
  rw [TokenStream.number_ofText, hliterals] at hl
  rw [TokenStream.number_ofText, hunions] at hu
  rw [TokenStream.number_ofText, hstars] at hs
  -- there is a literal, so `2 * l - 1` is not cut off at zero
  have hpos : 0 < l := by
    rw [← hl]
    exact List.length_pos_of_ne_nil tree.expression.literals_ne_nil
  have hedges := hlaid.length_edgeEnds
  rw [hl, hu, hs] at hedges
  obtain ⟨figures, hfigures, hstates, htransitions, halphabet⟩ :=
    hclosed.exists_summary hreached hlaid.nodup_edgeEnds
  refine ⟨c, hcompile, ?_, hclosed.reachable_perm hreached, hleading, ?_, hlaid.nodup_edgeEnds, figures, hfigures,
    hstates, htransitions, ?_, ?_⟩
  · rw [hlaid.size_eq, tree.expression.size_eq, hl, hu, hs]
  · omega
  · rw [halphabet]
    exact c.automaton.alphabet_ascending
  · intro ch
    rw [halphabet, hlaid.mem_alphabet, ← hliterals, TokenKind.mem_among]

/-- Three literals, two of them equal, a union and a repetition. -/
theorem automaton_size_law_repeated :
    ∃ tree, Spells "(a|b)*a".toList tree ∧ ∃ c, compile "(a|b)*a" = .ok c ∧ c.automaton.size = 10 ∧
      c.automaton.edgeEnds.length = 12 ∧
      ∃ figures, c.summary = .ok figures ∧ figures.states = 10 ∧ figures.transitions = 12 := by
  have hunion : Derives .alternation 1 (['a'] ++ '|' :: ['b']) _ :=
    .union (.sequence (.repetition (.atom (.literal rfl)))) (.repetition (.atom (.literal rfl)))
  have hspells : Spells "(a|b)*a".toList _ :=
    .sequence (.concat (.repetition (.star (.atom (.group hunion)))) (.atom (.literal rfl)))
  obtain ⟨c, hcompile, hsize, _, _, hedges, _, figures, hfigures, hstates, htransitions, _⟩ :=
    automaton_size_law hspells false (l := 3) (u := 1) (s := 1) rfl rfl rfl
  refine ⟨_, hspells, c, hcompile, hsize, hedges, figures, hfigures, ?_, ?_⟩
  · rw [hstates, hsize]
  · rw [htransitions, hedges]

end RegexNfa
