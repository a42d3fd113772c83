import RegexNfa.Proofs.Arena.Layout
import RegexNfa.Proofs.Compilation.Outcome

/-!
# The automaton of an expression, written down

The automaton of a text that spells an expression is the layout of that expression, from its entry to its exit
(`compile_laid_out`).  So facts about compiled automata, state by state, are facts about `Expression.layout`.
-/

namespace RegexNfa

/-- The automaton is the layout of the expression. -/
structure Automaton.LaidOut (m : Automaton) (e : Expression) : Prop where
  states_eq : m.states = e.layout 0 []
  start_eq : m.start = e.entry 0
  accept_eq : m.accept = e.exit 0

variable {source : String} {tree : ParseTree}

lemma assemble_layout (h : Spells source.toList tree) (logging : Bool) :
    ∃ a, (Arena.fresh logging).assemble (translated source) = (.ok (tree.expression.fragment 0), a) ∧
      a.states = tree.expression.layout 0 [] := by
  obtain ⟨a, hstates, hassemble⟩ := Arena.LaysOut.ofTree (translated source).fullSpan
    h.readFrom (.fresh logging)
  have htokens : (translated source).tokens = tree.listing := Token.postfixed_ofText h
  have hall := hassemble [] []
  rw [List.append_nil] at hall
  refine ⟨a, ?_, hstates⟩
  rw [Arena.assemble, htokens]
  exact hall

/-- Compiling a text that spells an expression gives the layout of the expression. -/
theorem compile_laid_out (h : Spells source.toList tree) (logging : Bool) :
    ∃ c, compile source logging = .ok c ∧ c.automaton.LaidOut tree.expression ∧
      ∃ f a, Arena.Grown [⟨f, tree.expression⟩] a ∧ a.Frozen f c.automaton := by
  obtain ⟨f, a, hbuilt, hgrown⟩ := assemble_spells h logging
  obtain ⟨a', hbuilt', hstates⟩ := assemble_layout h logging
  rw [hbuilt] at hbuilt'
  obtain ⟨hends, rfl⟩ := Prod.mk.inj hbuilt'
  obtain rfl := Except.ok.inj hends
  obtain ⟨c, hcompile, hfrozen⟩ := compile_of_built hbuilt hgrown
  refine ⟨c, hcompile, ⟨?_, hfrozen.start_eq, hfrozen.accept_eq⟩, _, a, hgrown, hfrozen⟩
  rw [hfrozen.states_eq, hstates]

end RegexNfa
