import RegexNfa.Summary
import RegexNfa.Proofs.Automaton.Graph

/-!
# What the summary figures count

The alphabet is the set of characters on edges, in ascending order.  When the start leads to every state and no
two edges join the same two states, the merged graph loses nothing, and the figures are those of the automaton
itself (`Closed.exists_summary`).
-/

namespace RegexNfa

namespace Automaton

variable {a : Automaton}

/-! ## The alphabet -/

lemma mem_alphabet {c : Char} :
    c ∈ a.alphabet ↔ c ∈ a.states.flatMap fun s => s.edges.filterMap (·.1.char?) := by
  rw [alphabet, List.mem_mergeSort, mem_firstSeen]

/-- The alphabet is in strictly ascending order. -/
theorem alphabet_ascending (a : Automaton) : a.alphabet.Pairwise (· < ·) := by
  have hsorted : a.alphabet.Pairwise fun c d => decide (c ≤ d) = true :=
    List.pairwise_mergeSort (by simpa using fun _ _ _ => Char.le_trans)
      (by simpa using Char.le_total) _
  have hnodup : a.alphabet.Nodup := (List.mergeSort_perm _ _).nodup_iff.2 (nodup_firstSeen _)
  refine (hsorted.and hnodup).imp ?_
  intro c d h
  exact Std.lt_of_le_of_ne (of_decide_eq_true h.1) h.2

/-! ## Counting edges -/

/-- The pairs of states that edges join, one pair for every edge. -/
def edgeEnds (a : Automaton) : List (Nat × Nat) :=
  a.states.flatMap fun s => s.edges.map fun e => (s.id, e.2)

lemma mem_edgeEnds {p q : Nat} : (p, q) ∈ a.edgeEnds ↔ ∃ symbol, Edge a.states p symbol q := by
  simp only [edgeEnds, List.mem_flatMap, List.mem_map, Prod.exists, Prod.mk.injEq]
  constructor
  · intro h
    obtain ⟨s, hs, symbol, target, hedge, rfl, rfl⟩ := h
    obtain ⟨i, hi, rfl⟩ := List.mem_iff_getElem.1 hs
    refine ⟨symbol, a.states[i], ?_, hedge⟩
    rw [a.id_getElem hi, List.getElem?_eq_getElem hi]
  · intro h
    obtain ⟨symbol, s, hs, hedge⟩ := h
    obtain ⟨hlt, rfl⟩ := List.getElem?_eq_some_iff.1 hs
    exact ⟨_, List.mem_of_getElem? hs, symbol, q, hedge, a.id_getElem hlt, rfl⟩

/-- No two edges join the same states if the edges out of each state lead to different states. -/
lemma nodup_edgeEnds (h : ∀ s ∈ a.states, (s.edges.map Prod.snd).Nodup) : a.edgeEnds.Nodup := by
  have hids : (a.states.map State.id).Nodup := by
    rw [a.ids_eq]
    exact List.nodup_range
  have hpairs := nodup_flatMap_pairs hids h
  simp only [List.map_map] at hpairs
  exact hpairs

lemma length_edgeEnds (a : Automaton) : a.edgeEnds.length = (a.states.flatMap State.edges).length := by
  simp only [edgeEnds, List.length_flatMap, List.length_map]

/-- The figures of an automaton whose start leads to every state, no two edges joining the same states. -/
theorem Closed.exists_summary (ha : a.Closed) (hall : ∀ id < a.size, Leads a.states a.start id)
    (hedges : a.edgeEnds.Nodup) :
    ∃ figures, Summary.ofAutomaton a = .ok figures ∧ figures.states = a.size ∧
      figures.transitions = a.edgeEnds.length ∧ figures.alphabet = a.alphabet := by
  obtain ⟨order, g, horder, hg, hnodes, hnodup, hmem⟩ := ha.exists_graph
  obtain ⟨order', horder', hperm⟩ := ha.reachable_perm hall
  rw [horder] at horder'
  obtain rfl := Except.ok.inj horder'
  refine ⟨.ofGraph a g, ?_, ?_, ?_, rfl⟩
  · rw [Summary.ofAutomaton, hg]
    rfl
  · show g.nodes.length = a.size
    rw [← List.length_map (f := Graph.Node.id), hnodes, hperm.length_eq, List.length_range]
  · -- neither list repeats a pair, so it is enough that they have the same members
    have hsame : (g.edges.map Graph.Edge.ends).Perm a.edgeEnds := by
      refine (List.perm_ext_iff_of_nodup hnodup hedges).2 ?_
      rintro ⟨p, q⟩
      rw [hmem, mem_edgeEnds, hperm.mem_iff, List.mem_range]
      constructor
      · exact And.right
      · intro h
        obtain ⟨symbol, edge⟩ := h
        exact ⟨edge.lt_length, symbol, edge⟩
    show g.edges.length = a.edgeEnds.length
    rw [← hsame.length_eq, List.length_map]

end Automaton

end RegexNfa
