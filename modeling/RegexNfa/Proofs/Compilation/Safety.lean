import Mathlib.Algebra.Group.Nat.Defs
import RegexNfa.Proofs.Arena.Growth
import RegexNfa.Proofs.Automaton.Graph
import RegexNfa.Proofs.Compilation.Acceptance
import RegexNfa.Proofs.Compilation.Log
import RegexNfa.Proofs.Token.Slices

/-!
# No text meets a fault

An operation that finds its precondition broken ends in a fault.  The preconditions are kept far from where they are
looked at: a literal is read off the text by the span that the first pass gave it, an edge is followed in an automaton
that the rules wired long before, and freezing checks flags that every rule has moved.  Here it is put together that
none of them is ever broken, whatever the text: each token fits the text (`TokenStream.Fits`), what is assembled
can be frozen (`Arena.Freezable`), and a compilation serves every later operation (`Compilation.Faultless`).

A text of less than 2 ^ 31 bytes takes less than 2 ^ 32 states, so that ids and positions are numbers of 32 bits.
-/

namespace RegexNfa

namespace Arena

/-- What freezing looks at: ids are positions, the fragment lies in the arena, and of all states its exit alone
accepts. -/
structure Freezable (a : Arena) (whole : Fragment) : Prop where
  numbered : a.Numbered
  entry_lt : whole.entry < a.size
  exit_lt : whole.exit < a.size
  sole : ∀ s ∈ a.states, s.accepting = decide (s.id = whole.exit)

lemma Frozen.freezable {a : Arena} {f : Fragment} {m : Automaton} (h : Frozen a f m) : a.Freezable f := by
  obtain ⟨states, start, accept, hids, hstart, haccept, hsole⟩ := m
  obtain ⟨rfl, rfl, rfl⟩ := h
  exact ⟨hids, hstart, haccept, hsole⟩

end Arena

/-- No operation on the compilation meets a fault: the graph, the figures and the dump are made, and every input is
run on. -/
structure Compilation.Faultless (c : Compilation) : Prop where
  closed : c.automaton.Closed
  reachable : ∃ order, c.automaton.reachable = .ok order
  graph : ∃ g, Graph.ofAutomaton c.automaton = .ok g
  summary : ∃ figures, c.summary = .ok figures
  dump : ∀ p, ∃ text, c.dump p = .ok text
  accepts : ∀ input, ∃ verdict, c.automaton.accepts input = .ok verdict
  trace : ∀ input, ∃ t, c.automaton.trace input = .ok t
  narrate : ∀ n input, ∃ told, c.automaton.run Narrator.note n input = .ok told

variable {source : String} {logging : Bool} {c : Compilation}

lemma compile_closed (h : compile source logging = .ok c) : c.automaton.Closed := by
  rcases compile_outcome source logging with ⟨_, c', hc, f, e, a, hgrown, hfrozen⟩ | ⟨_, _, _, hfails⟩ |
    ⟨_, _, _, _, _, _, _, hfails⟩
  · rw [h] at hc
    obtain rfl := Except.ok.inj hc
    exact hfrozen.closed hgrown
  · rw [h] at hfails
    exact absurd hfails (by simp)
  · rw [h] at hfails
    exact absurd hfails (by simp)

lemma Compilation.exists_dump (h : compile source logging = .ok c) (p : Palette) :
    ∃ text, c.dump p = .ok text := by
  obtain ⟨_, _, _, _, hexplicit, hreordered, _⟩ := exists_built h
  obtain ⟨explicit, hshown⟩ := (TokenStream.fits_ofText source.toList).marked.exists_display
  obtain ⟨reordered, hshown'⟩ := (fits_translated source).exists_display
  rw [← hexplicit] at hshown
  rw [← hreordered] at hshown'
  exact ⟨_, Fault.bind_eq_ok.2 ⟨explicit, hshown, Fault.bind_eq_ok.2 ⟨reordered, hshown', rfl⟩⟩⟩

/-- What has been compiled serves every operation. -/
theorem compile_faultless (h : compile source logging = .ok c) : c.Faultless := by
  have hclosed := compile_closed h
  obtain ⟨order, g, horder, hg, _⟩ := hclosed.exists_graph
  obtain ⟨settled, entered, hsets⟩ := Automaton.exists_configurations hclosed
  refine ⟨hclosed, ⟨order, horder⟩, ⟨g, hg⟩, ⟨.ofGraph c.automaton g, ?_⟩, Compilation.exists_dump h, ?_, ?_, ?_⟩
  · rw [Compilation.summary, Summary.ofAutomaton, hg]
    rfl
  · intro input
    exact ⟨_, Automaton.accepts_eq_ok hclosed hsets input⟩
  · intro input
    exact ⟨_, Automaton.trace_eq_ok hclosed hsets input⟩
  · intro n input
    exact ⟨_, Automaton.run_eq_ok hclosed hsets Narrator.note n input⟩

/-- A text compiles, or it does not for one reason, whether a log is kept or not. -/
lemma compile_or_invalid (source : String) :
    (∃ c, compile source = .ok c) ∨ ∃ invalid, ∀ logging, compile source logging = .error (.invalid invalid) := by
  have hunlogged := compile_unlogged source
  rcases compile_cases source true with ⟨_, c, hc⟩ | ⟨_, hfails⟩ | ⟨t, _, hfails⟩
  · rw [hc] at hunlogged
    exact .inl ⟨_, hunlogged⟩
  · rw [hfails] at hunlogged
    exact .inr ⟨_, Bool.forall_bool.2 ⟨hunlogged, hfails⟩⟩
  · rw [hfails] at hunlogged
    exact .inr ⟨_, Bool.forall_bool.2 ⟨hunlogged, hfails⟩⟩

/-- Compiling a text, and all that can be done with what is compiled, meets no fault.  The tokens of every pass fit the
text, the arena stays below 2 ^ 32 states, and assembling ends with an invalid expression or with a fragment that is
frozen, to an automaton that serves every operation. -/
theorem no_text_faults (source : String) (logging : Bool) (hsize : byteLength source.toList < 2 ^ 31) :
    (TokenStream.ofText source.toList).Fits ∧ (TokenStream.ofText source.toList).marked.Fits ∧
    (translated source).Fits ∧
    ∃ result arena, (Arena.fresh logging).assemble (translated source) = (result, arena) ∧ arena.size < 2 ^ 32 ∧
      ((∃ e, result = .error (.invalid e) ∧ compile source logging = .error (.invalid e)) ∨
        ∃ whole c, result = .ok whole ∧ arena.Freezable whole ∧ arena.finish whole = .ok c.automaton ∧
          compile source logging = .ok c ∧ c.Faultless) := by
  have hread := TokenStream.fits_ofText source.toList
  have hgrowth : ((Arena.fresh logging).assemble (translated source)).2.size ≤ 2 * source.toList.length :=
    Arena.size_assemble_translated_le source.toList logging
  have hlength := length_le_byteLength source.toList
  cases hbuilt : (Arena.fresh logging).assemble (translated source) with
  | mk result arena =>
    rw [hbuilt] at hgrowth
    have hsmall : arena.size < 2 ^ 32 := by
      have hle : arena.size ≤ 2 * source.toList.length := hgrowth
      omega
    refine ⟨hread, hread.marked, hread.marked.postfixed, result, arena, rfl, hsmall, ?_⟩
    rcases assemble_outcome source logging with ⟨_, f, e, a, hassemble, hgrown⟩ | ⟨_, _, _, _, hassemble⟩ |
      ⟨_, _, _, _, _, _, _, _, hassemble⟩
    · obtain ⟨c, hcompile, hfrozen⟩ := compile_of_built hassemble hgrown
      obtain ⟨f', a', hassemble', hfinish, _⟩ := exists_built hcompile
      rw [hassemble, Prod.mk.injEq] at hbuilt hassemble'
      obtain ⟨rfl, rfl⟩ := hbuilt
      obtain ⟨hfragment, rfl⟩ := hassemble'
      obtain rfl := Except.ok.inj hfragment
      exact .inr ⟨f, c, rfl, hfrozen.freezable, hfinish, hcompile, compile_faultless hcompile⟩
    · rw [hassemble, Prod.mk.injEq] at hbuilt
      exact .inl ⟨_, hbuilt.1.symm, compile_of_refused hassemble⟩
    · rw [hassemble, Prod.mk.injEq] at hbuilt
      exact .inl ⟨_, hbuilt.1.symm, compile_of_refused hassemble⟩

/-- A text whose characters take one, two and four bytes, with a repetition that finds its operand only after the text
has been put in order. -/
theorem no_text_faults_wide :
    byteLength "(é|😀)*a".toList < 2 ^ 31 ∧
      ∃ c, compile "(é|😀)*a" = .ok c ∧ c.automaton.Closed ∧ ∃ verdict, c.automaton.accepts "😀a" = .ok verdict := by
  have hsize : byteLength "(é|😀)*a".toList < 2 ^ 31 := by decide
  have hcompiles : ∃ c, compile "(é|😀)*a" = .ok c := ⟨_, rfl⟩
  obtain ⟨c, hcompile⟩ := hcompiles
  obtain ⟨_, _, _, result, arena, hassemble, _, ⟨e, _, hfails⟩ | ⟨_, c', _, _, _, hcompile', hserves⟩⟩ :=
    no_text_faults "(é|😀)*a" false hsize
  · rw [hcompile] at hfails
    exact absurd hfails (by simp)
  · exact ⟨hsize, c', hcompile', hserves.closed, hserves.accepts "😀a"⟩

end RegexNfa
