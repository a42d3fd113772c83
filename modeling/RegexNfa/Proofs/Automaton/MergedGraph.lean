import RegexNfa.Proofs.Automaton.BreadthFirst
import RegexNfa.Proofs.Automaton.Readout

/-!
# What a graph shows and in which order

`Drawn` says of a graph all that an automaton settles about it: which nodes it has and in which order, which states
its edges join, that no pair is joined twice, the order of the edges, and the labels of each with their order.  The
graph of every closed automaton is such a graph (`Closed.exists_drawn`).

Both orders inside a state are first-seen orders.  Targets go by their first places among the successors
(`pairwise_edgesFrom`).  The labels between two states are taken once for every parallel edge and kept once; that this
keeps them in the order of the symbols is `firstSeen_filedUnder_arrows`.
-/

namespace RegexNfa

/-- The symbols on edges of `s` to `target`, in the order of first use. -/
def State.symbolsTo (s : State) (target : Nat) : List Symbol :=
  (s.groups.filter (target ∈ ·.2)).map Prod.fst

variable {s : State} {target : Nat} {symbol : Symbol}

lemma State.mem_symbolsTo : symbol ∈ s.symbolsTo target ↔ (symbol, target) ∈ s.edges := by
  simp only [symbolsTo, groups, List.mem_map, List.mem_filter, decide_eq_true_eq, Prod.exists, exists_and_right,
    exists_eq_right]
  constructor
  · intro h
    obtain ⟨targets, hgroup, htarget⟩ := h
    rw [(mem_grouped.1 hgroup).2] at htarget
    exact mem_filedUnder.1 htarget
  · intro h
    exact ⟨_, mem_grouped.2 ⟨⟨target, h⟩, rfl⟩, mem_filedUnder.2 h⟩

/-- `g` is the graph of `a`, with the states `order` for nodes. -/
structure Automaton.Drawn (a : Automaton) (order : List Nat) (g : Graph) : Prop where
  designated : g.start = a.start ∧ g.accept = a.accept
  nodes : g.nodes.map Graph.Node.id = order
  flagged : ∀ n ∈ g.nodes, (n.start = true ↔ n.id = a.start) ∧ (n.accept = true ↔ n.id = a.accept)
  named : ∀ n ∈ g.nodes, n.label = Graph.stateName n.id
  /-- no pair of states is joined twice -/
  once : (g.edges.map Graph.Edge.ends).Nodup
  joined : ∀ p q, (p, q) ∈ g.edges.map Graph.Edge.ends ↔
    Leads a.states a.start p ∧ ∃ symbol, Edge a.states p symbol q
  inside : ∀ e ∈ g.edges, e.source ∈ order ∧ e.target ∈ order
  /-- edges go by their source, as the nodes are listed -/
  sources : g.edges.Pairwise fun e e' => order.idxOf e.source ≤ order.idxOf e'.source
  /-- edges from one state go by their target, as the edges of the state have it first, by symbol and by target -/
  targets : g.edges.Pairwise fun e e' => e.source = e'.source → ∀ s, a.states[e.source]? = some s →
    s.successors.idxOf e.target < s.successors.idxOf e'.target
  labels : ∀ e ∈ g.edges, e.labels.Nodup ∧
    ∀ l, l ∈ e.labels ↔ ∃ symbol, Edge a.states e.source symbol e.target ∧ symbol.label = l
  /-- labels go by the first symbol that is written so -/
  labelled : ∀ e ∈ g.edges, ∀ s, a.states[e.source]? = some s → e.labels.Pairwise fun l l' =>
    ((s.symbolsTo e.target).map Symbol.label).idxOf l < ((s.symbolsTo e.target).map Symbol.label).idxOf l'

namespace Graph

/-! ## The labels between two states -/

lemma firstSeen_replicate_append {α : Type} [DecidableEq α] (x : α) (n : Nat) (xs : List α) :
    firstSeen (List.replicate (n + 1) x ++ xs) = firstSeen (x :: xs) := by
  induction n with
  | zero => rfl
  | succ n ih =>
    rw [List.replicate_succ, List.cons_append, firstSeen, ih, firstSeen, List.filter_cons_of_neg (by simp),
      List.filter_filter]
    simp

/-- Parallel edges add no label and change no order. -/
lemma firstSeen_filedUnder_arrows (s : State) (target : Nat) :
    firstSeen (filedUnder target (arrows s)) = firstSeen ((s.symbolsTo target).map Symbol.label) := by
  have harrows : arrows s = s.groups.flatMap fun group => group.2.map (·, group.1.label) := rfl
  rw [harrows, State.symbolsTo]
  induction s.groups with
  | nil => rfl
  | cons group groups ih =>
    have hparallel : filedUnder target (group.2.map (·, group.1.label)) =
        List.replicate (group.2.count target) group.1.label := by
      rw [filedUnder, List.filter_map, List.map_map]
      show (group.2.filter (· = target)).map (fun _ => group.1.label) = _
      rw [List.filter_eq, List.map_replicate]
    have hsplit : filedUnder target ((group :: groups).flatMap fun group => group.2.map (·, group.1.label)) =
        List.replicate (group.2.count target) group.1.label ++
          filedUnder target (groups.flatMap fun group => group.2.map (·, group.1.label)) := by
      rw [← hparallel, List.flatMap_cons, filedUnder, List.filter_append, List.map_append]
      rfl
    rw [hsplit]
    by_cases htarget : target ∈ group.2
    · obtain ⟨n, hn⟩ : ∃ n, group.2.count target = n + 1 :=
        Nat.exists_eq_add_one.2 (List.count_pos_iff.2 htarget)
      rw [hn, firstSeen_replicate_append, List.filter_cons_of_pos (by simpa using htarget), List.map_cons,
        List.map_cons, firstSeen, firstSeen, ih]
    · rw [List.count_eq_zero.2 htarget, List.filter_cons_of_neg (by simpa using htarget)]
      exact ih

variable {e : Edge}

/-- The labels of an edge are those of the symbols to its target. -/
lemma labels_of_mem_edgesFrom (he : e ∈ edgesFrom s) :
    e.labels = firstSeen ((s.symbolsTo e.target).map Symbol.label) := by
  obtain ⟨⟨target, labels⟩, hgroup, rfl⟩ := List.mem_map.1 he
  rw [(mem_grouped.1 hgroup).2]
  exact firstSeen_filedUnder_arrows s target

lemma mem_labels {l : String} (he : e ∈ edgesFrom s) :
    l ∈ e.labels ↔ ∃ symbol, (symbol, e.target) ∈ s.edges ∧ symbol.label = l := by
  rw [labels_of_mem_edgesFrom he, mem_firstSeen, List.mem_map]
  simp only [State.mem_symbolsTo]

/-! ## The order of edges -/

lemma map_target_edgesFrom (s : State) : (edgesFrom s).map Edge.target = firstSeen s.successors := by
  rw [← map_fst_arrows, ← map_fst_grouped, edgesFrom, List.map_map]
  rfl

/-- Edges out of a state go by the first places of their targets. -/
lemma pairwise_edgesFrom (s : State) :
    (edgesFrom s).Pairwise fun e e' => s.successors.idxOf e.target < s.successors.idxOf e'.target := by
  have hplaces := pairwise_firstSeen s.successors
  rw [← map_target_edgesFrom, List.pairwise_map] at hplaces
  exact hplaces

variable {states all : List State}

/-- Edges go by their source, in the order of the states. -/
lemma pairwise_sources (hids : (states.map State.id).Nodup) :
    (states.flatMap edgesFrom).Pairwise fun e e' =>
      (states.map State.id).idxOf e.source ≤ (states.map State.id).idxOf e'.source := by
  have hplaces := pairwise_firstSeen (states.map State.id)
  rw [firstSeen_of_nodup hids, List.pairwise_map] at hplaces
  refine List.pairwise_flatMap.2 ⟨?_, ?_⟩
  · intro s _
    refine List.pairwise_of_forall_mem_list ?_
    intro e he e' he'
    rw [source_of_mem_edgesFrom he, source_of_mem_edgesFrom he']
  · refine hplaces.imp ?_
    intro s s' hlt e he e' he'
    rw [source_of_mem_edgesFrom he, source_of_mem_edgesFrom he']
    exact Nat.le_of_lt hlt

/-- Edges from one state go by their target, as the state has it first. -/
lemma pairwise_targets (hids : (states.map State.id).Nodup) (hget : ∀ s ∈ states, all[s.id]? = some s) :
    (states.flatMap edgesFrom).Pairwise fun e e' => e.source = e'.source → ∀ s, all[e.source]? = some s →
      s.successors.idxOf e.target < s.successors.idxOf e'.target := by
  refine List.pairwise_flatMap.2 ⟨?_, ?_⟩
  · intro s hs
    refine (pairwise_edgesFrom s).imp_of_mem ?_
    intro e e' he _ hlt _ s' hs'
    rw [source_of_mem_edgesFrom he, hget s hs] at hs'
    rw [← Option.some.inj hs']
    exact hlt
  · refine (List.pairwise_map.1 hids).imp ?_
    intro s s' hne e he e' he' hsame
    rw [source_of_mem_edgesFrom he, source_of_mem_edgesFrom he'] at hsame
    exact absurd hsame hne

/-- An edge of a graph comes from the state that is its source. -/
lemma mem_edgesFrom_of_source (hget : ∀ s ∈ states, all[s.id]? = some s) (he : e ∈ states.flatMap edgesFrom)
    (hs : all[e.source]? = some s) : e ∈ edgesFrom s := by
  obtain ⟨s', hs', hfrom⟩ := List.mem_flatMap.1 he
  rw [source_of_mem_edgesFrom hfrom, hget s' hs'] at hs
  rw [← Option.some.inj hs]
  exact hfrom

end Graph

/-! ## The whole graph -/

namespace Automaton

variable {a : Automaton}

/-- The graph of a closed automaton shows it as it is, over the states that the start leads to. -/
theorem Closed.exists_drawn (ha : a.Closed) :
    ∃ order g, a.reachable = .ok order ∧ (∀ q, q ∈ order ↔ Leads a.states a.start q) ∧
      Graph.ofAutomaton a = .ok g ∧ a.Drawn order g := by
  obtain ⟨order, states, horder, hmem, hnodup, hgraph, rfl, hget⟩ := ha.exists_shown
  obtain ⟨_, g, horder', hgraph', hnodes, honce, hends⟩ := ha.exists_graph
  rw [horder] at horder'
  obtain rfl := Except.ok.inj horder'
  rw [hgraph] at hgraph'
  obtain rfl := Except.ok.inj hgraph'
  have hjoined : ∀ p q, (p, q) ∈ (states.flatMap Graph.edgesFrom).map Graph.Edge.ends ↔
      Leads a.states a.start p ∧ ∃ symbol, Edge a.states p symbol q := by
    intro p q
    rw [← hmem p]
    exact hends p q
  have hedge : ∀ e ∈ states.flatMap Graph.edgesFrom, Leads a.states a.start e.source ∧
      ∃ symbol, Edge a.states e.source symbol e.target := by
    intro e he
    exact (hjoined e.source e.target).1 (List.mem_map_of_mem he)
  refine ⟨_, _, horder, hmem, hgraph, ?_⟩
  refine
    { designated := ⟨rfl, rfl⟩
      nodes := hnodes
      flagged := ?flagged
      named := ?named
      once := honce
      joined := hjoined
      inside := ?inside
      sources := Graph.pairwise_sources hnodup
      targets := Graph.pairwise_targets hnodup hget
      labels := ?labels
      labelled := ?labelled }
  case flagged =>
    intro n hn
    obtain ⟨id, _, rfl⟩ := List.mem_map.1 hn
    exact ⟨decide_eq_true_iff, decide_eq_true_iff⟩
  case named =>
    intro n hn
    obtain ⟨id, _, rfl⟩ := List.mem_map.1 hn
    rfl
  case inside =>
    intro e he
    obtain ⟨hleads, symbol, edge⟩ := hedge e he
    exact ⟨(hmem _).2 hleads, (hmem _).2 (hleads.trans (.ofEdge edge))⟩
  case labels =>
    intro e he
    obtain ⟨_, _, s, hs, _⟩ := hedge e he
    have hfrom : e ∈ Graph.edgesFrom s := Graph.mem_edgesFrom_of_source hget he hs
    refine ⟨?_, ?_⟩
    · rw [Graph.labels_of_mem_edgesFrom hfrom]
      exact nodup_firstSeen _
    · intro l
      rw [Graph.mem_labels hfrom]
      simp only [Edge, hs, Option.some.injEq, exists_eq_left']
  case labelled =>
    intro e he s hs
    rw [Graph.labels_of_mem_edgesFrom (Graph.mem_edgesFrom_of_source hget he hs)]
    exact pairwise_firstSeen _

theorem braided_drawn :
    braided.Closed ∧ ∃ g, Graph.ofAutomaton braided = .ok g ∧ braided.Drawn [0, 3, 2, 1, 5, 4] g ∧
      g.edges = [⟨0, 3, ["b", "a"]⟩, ⟨0, 2, ["b"]⟩, ⟨0, 1, ["ε"]⟩, ⟨3, 0, ["ε"]⟩, ⟨2, 5, ["a"]⟩, ⟨2, 2, ["a"]⟩,
        ⟨2, 4, ["ε"]⟩, ⟨1, 4, ["ε"]⟩, ⟨5, 1, ["b"]⟩] := by
  have hclosed : braided.Closed := by decide
  obtain ⟨order, g, horder, _, hg, hdrawn⟩ := hclosed.exists_drawn
  rw [braided_reachable] at horder
  obtain rfl := Except.ok.inj horder
  refine ⟨hclosed, g, hg, hdrawn, ?_⟩
  rw [Graph.ofAutomaton, braided_reachable] at hg
  obtain rfl := Except.ok.inj hg
  rfl

end Automaton

end RegexNfa
