import RegexNfa.Proofs.Automaton.Readout
import RegexNfa.Proofs.Compilation.NormalForm

/-!
# The graph of a compiled automaton loses nothing

A graph shows ε edges and edges on the literal `ε` alike, and edges between the same two states as one.  In the
automaton of an expression no two edges join the same states, and whether a state has a character edge is seen from
its id and the number of its edges: only an even state with a single edge has one (`State.Wired.exists_targets`).
So texts whose automata have the same graph have the same automaton.
-/

namespace RegexNfa

namespace State.Wired

variable {s t : State}

/-- The edges out of a wired state have one symbol and lead to different states.  The symbol is a character
exactly if the id is even and the edge is alone. -/
lemma exists_targets (h : s.Wired) :
    ∃ symbol targets, s.edges = targets.map (symbol, ·) ∧ targets.Nodup ∧ targets ≠ [] ∧
      symbol.isEpsilon = !decide (Even s.id ∧ targets.length = 1) := by
  cases h with
  | @reads _ c even =>
    exact ⟨.char c, [_], rfl, List.nodup_singleton _, List.cons_ne_nil _ _, by simp [Symbol.isEpsilon, even]⟩
  | @forks _ p q even apart =>
    exact ⟨.epsilon, [p, q], rfl, by simp [apart], List.cons_ne_nil _ _, by simp [Symbol.isEpsilon]⟩
  | @goesOn _ p odd =>
    have hid := Nat.not_even_iff_odd.2 odd
    exact ⟨.epsilon, [p], rfl, List.nodup_singleton _, List.cons_ne_nil _ _, by simp [Symbol.isEpsilon, hid]⟩
  | @goesBack _ p q _ back on =>
    have apart : p ≠ q := by
      intro hsame
      exact Nat.not_even_iff_odd.2 on (hsame ▸ back)
    exact ⟨.epsilon, [p, q], rfl, by simp [apart], List.cons_ne_nil _ _, by simp [Symbol.isEpsilon]⟩

/-- Wired states with one id that a graph shows alike have the same edges. -/
lemma edges_eq (hs : s.Wired) (ht : t.Wired) (hid : s.id = t.id)
    (hshown : Graph.edgesFrom s = Graph.edgesFrom t) : s.edges = t.edges := by
  obtain ⟨x, targets, hx, hnodup, hne, hempty⟩ := hs.exists_targets
  obtain ⟨y, targets', hy, hnodup', _, hempty'⟩ := ht.exists_targets
  rw [Graph.edgesFrom_of_targets hx hnodup, Graph.edgesFrom_of_targets hy hnodup'] at hshown
  have htargets : targets = targets' := by
    simpa [Function.comp_def] using congrArg (List.map Graph.Edge.target) hshown
  subst htargets
  have hlabel : x.label = y.label := by
    obtain ⟨p, rest, rfl⟩ := List.exists_cons_of_ne_nil hne
    simp only [List.map_cons, List.cons.injEq, Graph.Edge.mk.injEq, and_true] at hshown
    exact hshown.1.2.2
  have hsymbol : x = y := by
    apply Symbol.eq_of_label_eq hlabel
    rw [hempty, hempty', hid]
  rw [hx, hy, hsymbol]

end State.Wired

/-- Laid-out states with one id that a graph shows alike have the same edges, if the automata accept in the same
state. -/
lemma Automaton.LaidOut.edges_eq {m m' : Automaton} {e f : Expression} (hm : m.LaidOut e) (hm' : m'.LaidOut f)
    (haccept : m.accept = m'.accept) {s t : State} (hs : s ∈ m.states) (ht : t ∈ m'.states) (hid : s.id = t.id)
    (hshown : Graph.edgesFrom s = Graph.edgesFrom t) : s.edges = t.edges := by
  obtain ⟨hwired, hs⟩ | rfl := hm.wired_or_exit s hs
  · obtain ⟨hwired', _⟩ | rfl := hm'.wired_or_exit t ht
    · exact hwired.edges_eq hwired' hid hshown
    · exact absurd (hid.trans haccept.symm) hs
  · obtain ⟨_, ht⟩ | rfl := hm'.wired_or_exit t ht
    · exact absurd (hid.symm.trans haccept) ht
    · rfl

variable {source : String} {tree : ParseTree}

lemma compile_readout (h : Spells source.toList tree) (logging : Bool) :
    ∃ c, compile source logging = .ok c ∧ c.automaton.LaidOut tree.expression ∧
      ∃ g, Graph.ofAutomaton c.automaton = .ok g ∧ g.start = c.automaton.start ∧
        g.accept = c.automaton.accept ∧ g.nodes.length = c.automaton.size ∧
        ∀ s ∈ c.automaton.states, g.edges.filter (·.source = s.id) = Graph.edgesFrom s := by
  obtain ⟨c, hcompile, hlaid, f, a, hgrown, hfrozen⟩ := compile_laid_out h logging
  have hreached : ∀ id < c.automaton.size, Leads c.automaton.states c.automaton.start id :=
    fun _ hid => hfrozen.leads_from_start hgrown hid
  exact ⟨c, hcompile, hlaid, (hfrozen.closed hgrown).exists_readout hreached⟩

/-- Two texts that spell expressions have automata with the same graph exactly if they have the same automaton. -/
theorem graph_eq_iff_automaton_eq {s t : String} {x y : ParseTree} (hs : Spells s.toList x)
    (ht : Spells t.toList y) (logging logging' : Bool) :
    ∃ c d g g', compile s logging = .ok c ∧ compile t logging' = .ok d ∧
      Graph.ofAutomaton c.automaton = .ok g ∧ Graph.ofAutomaton d.automaton = .ok g' ∧
      (g = g' ↔ c.automaton = d.automaton) := by
  obtain ⟨c, hc, hlaid, g, hg, hstart, haccept, hsize, hedges⟩ := compile_readout hs logging
  obtain ⟨d, hd, hlaid', g', hg', hstart', haccept', hsize', hedges'⟩ := compile_readout ht logging'
  refine ⟨c, d, g, g', hc, hd, hg, hg', ?_⟩
  constructor
  · intro hsame
    subst hsame
    have hend : c.automaton.accept = d.automaton.accept := haccept.symm.trans haccept'
    refine Automaton.ext_edges (hsize.symm.trans hsize') (hstart.symm.trans hstart') hend ?_
    intro p hp q hq hid
    refine hlaid.edges_eq hlaid' hend hp hq hid ?_
    rw [← hedges p hp, hid, hedges' q hq]
  · intro hsame
    rw [hsame, hg'] at hg
    exact (Except.ok.inj hg).symm

/-- All labels of the first graph are `ε`, of which one is the literal. -/
theorem graph_eq_iff_automaton_eq_lookalikes :
    ∃ x y, Spells "ε*".toList x ∧ Spells "a*".toList y ∧ ∃ c d g g', compile "ε*" = .ok c ∧
      compile "a*" = .ok d ∧ Graph.ofAutomaton c.automaton = .ok g ∧
      Graph.ofAutomaton d.automaton = .ok g' ∧ g ≠ g' := by
  have hx : Spells "ε*".toList (.star (.literal 'ε' 0) 2) :=
    .sequence (.repetition (.star (.atom (.literal rfl))))
  have hy : Spells "a*".toList (.star (.literal 'a' 0) 1) :=
    .sequence (.repetition (.star (.atom (.literal rfl))))
  obtain ⟨c, d, g, g', hc, hd, hg, hg', hiff⟩ := graph_eq_iff_automaton_eq hx hy false false
  refine ⟨_, _, hx, hy, c, d, g, g', hc, hd, hg, hg', ?_⟩
  intro hsame
  obtain ⟨c', hc', hlaid, _⟩ := compile_laid_out hx false
  obtain ⟨d', hd', hlaid', _⟩ := compile_laid_out hy false
  rw [hc] at hc'
  rw [hd] at hd'
  obtain rfl := Except.ok.inj hc'
  obtain rfl := Except.ok.inj hd'
  exact absurd ((hlaid.eq_iff hlaid').1 (hiff.1 hsame)) (by decide)

end RegexNfa
