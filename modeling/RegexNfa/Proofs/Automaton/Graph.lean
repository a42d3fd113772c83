import RegexNfa.Graph
import RegexNfa.Proofs.Automaton.Reachable

/-!
# What a graph shows

The graph of a closed automaton has the reachable states for nodes, and one edge for every pair of reachable
states that an edge of the automaton joins (`Closed.exists_graph`), however many symbols lead from the one to
the other.
-/

namespace RegexNfa

/-- States, each paired with targets of its own that do not repeat. -/
lemma nodup_flatMap_pairs {states : List State} {targets : State → List Nat}
    (hids : (states.map State.id).Nodup) (h : ∀ s ∈ states, (targets s).Nodup) :
    (states.flatMap fun s => (targets s).map (s.id, ·)).Nodup := by
  refine List.nodup_flatMap.2 ⟨?_, ?_⟩
  · intro s hs
    exact (h s hs).map fun _ _ heq => (Prod.mk.inj heq).2
  · refine (List.pairwise_map.1 hids).imp ?_
    intro s t hid x hs ht
    obtain ⟨_, _, rfl⟩ := List.mem_map.1 hs
    obtain ⟨_, _, heq⟩ := List.mem_map.1 ht
    exact hid (congrArg Prod.fst heq).symm

namespace Graph

/-- The two nodes that an edge joins. -/
def Edge.ends (e : Edge) : Nat × Nat :=
  (e.source, e.target)

lemma map_fst_arrows (s : State) : (arrows s).map Prod.fst = s.successors := by
  simp [arrows, State.successors, List.map_flatMap, Function.comp_def]

/-- The edges out of a state join it to each of its successors once. -/
lemma map_ends_edgesFrom (s : State) : (edgesFrom s).map Edge.ends = (firstSeen s.successors).map (s.id, ·) := by
  rw [← map_fst_arrows, ← map_fst_grouped, edgesFrom, List.map_map, List.map_map]
  rfl

variable {states : List State} {p q : Nat}

lemma nodup_ends (h : (states.map State.id).Nodup) : ((states.flatMap edgesFrom).map Edge.ends).Nodup := by
  simp only [List.map_flatMap, map_ends_edgesFrom]
  exact nodup_flatMap_pairs h fun s _ => nodup_firstSeen s.successors

lemma mem_ends : (p, q) ∈ (states.flatMap edgesFrom).map Edge.ends ↔
    ∃ s ∈ states, s.id = p ∧ q ∈ s.successors := by
  simp only [List.map_flatMap, List.mem_flatMap, map_ends_edgesFrom, List.mem_map, mem_firstSeen, Prod.mk.injEq]
  constructor
  · intro h
    obtain ⟨s, hs, _, hq, hid, rfl⟩ := h
    exact ⟨s, hs, hid, hq⟩
  · intro h
    obtain ⟨s, hs, hid, hq⟩ := h
    exact ⟨s, hs, q, hq, hid, rfl⟩

end Graph

namespace Automaton

variable {a : Automaton}

/-- States looked up one by one are the states with those ids. -/
lemma mapM_state_eq_ok {order : List Nat} (h : ∀ id ∈ order, id < a.size) :
    ∃ states, order.mapM a.state = .ok states ∧ states.map State.id = order ∧
      ∀ s ∈ states, a.states[s.id]? = some s := by
  induction order with
  | nil => exact ⟨[], rfl, rfl, fun s hs => absurd hs List.not_mem_nil⟩
  | cons id order ih =>
    obtain ⟨states, hstates, hids, hget⟩ := ih fun i hi => h i (List.mem_cons_of_mem id hi)
    obtain ⟨s, hs, hsome⟩ := state_of_lt (h id List.mem_cons_self)
    have hid : s.id = id := by
      obtain ⟨hlt, rfl⟩ := List.getElem?_eq_some_iff.1 hsome
      exact a.id_getElem hlt
    refine ⟨s :: states, ?_, ?_, ?_⟩
    · rw [List.mapM_cons, hs, hstates]
      rfl
    · rw [List.map_cons, hid, hids]
    · refine List.forall_mem_cons.2 ⟨?_, hget⟩
      rw [hid]
      exact hsome

/-- The graph of a closed automaton is that of the reachable states, in the order in which they are met. -/
lemma Closed.exists_shown (ha : a.Closed) :
    ∃ order states, a.reachable = .ok order ∧ (∀ q, q ∈ order ↔ Leads a.states a.start q) ∧ order.Nodup ∧
      Graph.ofAutomaton a = .ok (.ofStates a order states) ∧ states.map State.id = order ∧
      ∀ s ∈ states, a.states[s.id]? = some s := by
  obtain ⟨order, horder, hnodup, hmem⟩ := ha.exists_reachable
  have hinside : ∀ id ∈ order, id < a.size := by
    intro id hid
    obtain ⟨w, path⟩ := (hmem id).1 hid
    exact ha.path_lt path a.start_lt
  obtain ⟨states, hstates, hids, hget⟩ := mapM_state_eq_ok hinside
  refine ⟨order, states, horder, hmem, hnodup, ?_, hids, hget⟩
  rw [Graph.ofAutomaton, horder]
  show (order.mapM a.state >>= _) = _
  rw [hstates]
  rfl

/-- The graph of a closed automaton: its nodes are the reachable states in the order in which they are met, and
its edges join, each pair once, the pairs of states that an edge out of a reachable state joins. -/
theorem Closed.exists_graph (ha : a.Closed) :
    ∃ order g, a.reachable = .ok order ∧ Graph.ofAutomaton a = .ok g ∧ g.nodes.map Graph.Node.id = order ∧
      (g.edges.map Graph.Edge.ends).Nodup ∧
      ∀ p q, (p, q) ∈ g.edges.map Graph.Edge.ends ↔ p ∈ order ∧ ∃ symbol, Edge a.states p symbol q := by
  obtain ⟨order, states, horder, _, hnodup, hgraph, hids, hget⟩ := ha.exists_shown
  refine ⟨order, _, horder, hgraph, ?_, Graph.nodup_ends (by rwa [hids]), ?_⟩
  · simp [Graph.ofStates, Function.comp_def]
  · intro p q
    rw [Graph.ofStates, Graph.mem_ends, ← hids, List.mem_map]
    constructor
    · intro h
      obtain ⟨s, hs, rfl, hq⟩ := h
      obtain ⟨symbol, hedge⟩ := State.mem_successors.1 hq
      exact ⟨⟨s, hs, rfl⟩, symbol, s, hget s hs, hedge⟩
    · intro h
      obtain ⟨⟨s, hs, rfl⟩, symbol, t, ht, hedge⟩ := h
      rw [hget s hs] at ht
      obtain rfl := Option.some.inj ht
      exact ⟨s, hs, rfl, State.mem_successors.2 ⟨symbol, hedge⟩⟩

end Automaton

end RegexNfa
