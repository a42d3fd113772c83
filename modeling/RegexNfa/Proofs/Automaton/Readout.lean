import RegexNfa.Proofs.Automaton.Graph

/-!
# What can be read off a graph

When the start leads to every state, the graph of an automaton has the start, the accepting state, the number of
states and, for every state, the merged edges out of it (`Closed.exists_readout`).  Merging hides in which order
targets and labels came; but where all edges out of a state have one symbol and lead to different states, it hides
nothing but the symbol behind its label (`edgesFrom_of_targets`).  A label stands for two symbols only if it is
`ε`: `Symbol.eq_of_label_eq`.
-/

namespace RegexNfa

variable {α κ ν : Type}

/-! ## Lists in which nothing is to be merged -/

lemma firstSeen_of_nodup [DecidableEq α] {xs : List α} (h : xs.Nodup) : firstSeen xs = xs := by
  induction xs with
  | nil => rfl
  | cons x xs ih =>
    obtain ⟨hx, hxs⟩ := List.nodup_cons.1 h
    rw [firstSeen, ih hxs, List.filter_eq_self.2]
    intro y hy
    exact decide_eq_true (ne_of_mem_of_not_mem hy hx)

/-- Values that all have one key are one group. -/
lemma grouped_of_one_key [DecidableEq κ] (k : κ) (v : ν) (vs : List ν) :
    grouped ((v :: vs).map (k, ·)) = [(k, v :: vs)] := by
  have hkeys : firstSeen (((v :: vs).map (k, ·)).map Prod.fst) = [k] := by
    rw [List.map_map, List.map_cons, firstSeen, List.filter_eq_nil_iff.2]
    · rfl
    · intro x hx
      obtain ⟨_, _, rfl⟩ := List.mem_map.1 (mem_firstSeen.1 hx)
      simp
  have hvalues : filedUnder k ((v :: vs).map (k, ·)) = v :: vs := by
    simp [filedUnder, List.filter_map, Function.comp_def]
  rw [grouped, hkeys, List.map_singleton, hvalues]

/-- Keys that do not repeat have a group each. -/
lemma grouped_of_nodup [DecidableEq κ] {ks : List κ} (h : ks.Nodup) (v : ν) :
    grouped (ks.map (·, v)) = ks.map (·, [v]) := by
  have hkeys : (ks.map (·, v)).map Prod.fst = ks := by
    simp [Function.comp_def]
  rw [grouped, hkeys, firstSeen_of_nodup h]
  apply List.map_congr_left
  intro k hk
  have hvalues : filedUnder k (ks.map (·, v)) = [v] := by
    rw [filedUnder, List.filter_map, List.map_map]
    show (ks.filter (· = k)).map (fun _ => v) = [v]
    rw [List.filter_eq, List.count_eq_one_of_mem h hk]
    rfl
  rw [hvalues]

/-! ## Labels -/

/-- Symbols with one label are the same, unless just one of them is the empty symbol. -/
lemma Symbol.eq_of_label_eq {x y : Symbol} (hlabel : x.label = y.label) (hempty : x.isEpsilon = y.isEpsilon) :
    x = y := by
  cases x with
  | epsilon =>
    cases y with
    | epsilon => rfl
    | char d => exact absurd hempty Bool.noConfusion
  | char c =>
    cases y with
    | epsilon => exact absurd hempty Bool.noConfusion
    | char d =>
      have hlist := congrArg String.toList hlabel
      simp only [label, String.toList_singleton, List.cons.injEq, and_true] at hlist
      rw [hlist]

namespace Graph

variable {s : State} {states : List State} {symbol : Symbol} {targets : List Nat}

/-! ## The edges out of one state -/

/-- Edges on one symbol to different states are shown one by one. -/
lemma edgesFrom_of_targets (h : s.edges = targets.map (symbol, ·)) (hnodup : targets.Nodup) :
    edgesFrom s = targets.map fun t => ⟨s.id, t, [symbol.label]⟩ := by
  have harrows : arrows s = targets.map (·, symbol.label) := by
    cases targets with
    | nil => rw [arrows, State.groups, h]; rfl
    | cons t ts => rw [arrows, State.groups, h, grouped_of_one_key]; simp
  rw [edgesFrom, harrows, grouped_of_nodup hnodup, List.map_map]
  rfl

lemma source_of_mem_edgesFrom {e : Edge} (he : e ∈ edgesFrom s) : e.source = s.id := by
  obtain ⟨_, _, rfl⟩ := List.mem_map.1 he
  rfl

/-- The edges of a graph out of one state are those that the state gave it. -/
lemma filter_source_edges (hids : (states.map State.id).Nodup) (hs : s ∈ states) :
    (states.flatMap edgesFrom).filter (·.source = s.id) = edgesFrom s := by
  induction states with
  | nil => exact absurd hs List.not_mem_nil
  | cons t states ih =>
    obtain ⟨hfresh, hrest⟩ := List.nodup_cons.1 hids
    rw [List.flatMap_cons, List.filter_append]
    obtain rfl | hmem := List.mem_cons.1 hs
    · -- no later state has the same id
      have hown : (edgesFrom s).filter (·.source = s.id) = edgesFrom s := by
        rw [List.filter_eq_self]
        intro e he
        exact decide_eq_true (source_of_mem_edgesFrom he)
      have hlater : (states.flatMap edgesFrom).filter (·.source = s.id) = [] := by
        rw [List.filter_eq_nil_iff]
        intro e he hsource
        obtain ⟨u, hu, heu⟩ := List.mem_flatMap.1 he
        rw [source_of_mem_edgesFrom heu] at hsource
        exact hfresh (of_decide_eq_true hsource ▸ List.mem_map_of_mem hu)
      rw [hown, hlater, List.append_nil]
    · have hother : (edgesFrom t).filter (·.source = s.id) = [] := by
        rw [List.filter_eq_nil_iff]
        intro e he hsource
        rw [source_of_mem_edgesFrom he] at hsource
        exact hfresh (of_decide_eq_true hsource ▸ List.mem_map_of_mem hmem)
      rw [hother, ih hrest hmem, List.nil_append]

end Graph

/-! ## The whole graph -/

/-- What the graph of an automaton shows when the start leads to every state. -/
theorem Automaton.Closed.exists_readout {a : Automaton} (ha : a.Closed)
    (hall : ∀ id < a.size, Leads a.states a.start id) :
    ∃ g, Graph.ofAutomaton a = .ok g ∧ g.start = a.start ∧ g.accept = a.accept ∧ g.nodes.length = a.size ∧
      ∀ s ∈ a.states, g.edges.filter (·.source = s.id) = Graph.edgesFrom s := by
  obtain ⟨order, states, horder, hmem, hnodup, hgraph, hids, hget⟩ := ha.exists_shown
  obtain ⟨order', horder', hperm⟩ := ha.reachable_perm hall
  rw [horder] at horder'
  obtain rfl := Except.ok.inj horder'
  refine ⟨_, hgraph, rfl, rfl, ?_, ?_⟩
  · show (order.map _).length = a.size
    rw [List.length_map, hperm.length_eq, List.length_range]
  · intro s hs
    obtain ⟨i, hi, rfl⟩ := List.mem_iff_getElem.1 hs
    have hshown : a.states[i] ∈ states := by
      have hlisted : i ∈ states.map State.id := by
        rw [hids, hperm.mem_iff]
        exact List.mem_range.2 hi
      obtain ⟨t, ht, hid⟩ := List.mem_map.1 hlisted
      have hsome := hget t ht
      rw [hid, List.getElem?_eq_getElem hi] at hsome
      rw [Option.some.inj hsome]
      exact ht
    exact Graph.filter_source_edges (by rwa [hids]) hshown

end RegexNfa
