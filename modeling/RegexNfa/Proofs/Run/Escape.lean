import RegexNfa.Arena
import RegexNfa.Summary
import RegexNfa.Proofs.Automaton.Graph
import RegexNfa.Proofs.Run.Configurations

/-!
# Edges that leave the arena

`Automaton.ofStates` checks ids, the two designated states and the accepting flags, and no edge.  So an automaton may
have edges to ids that name no state, and what is asked of it later meets a fault if it is led there.  Each operation
looks up definite ids: the graph and its figures all that edges lead to from the start, a run what paths from the start
reach by reading some first part of the input (`run_looksUp`).  Nothing else can go wrong, so edges that stay inside
suffice (`uses_look_up`).

The invariant of a run is that the active states are in the arena and are those that paths reading the text so far lead
to.  A move from them looks up nothing else, and its closure looks up what the next active states are to be.
-/

namespace RegexNfa

namespace Automaton

variable {a : Automaton}

/-! ## Searches and their answers -/

/-- Once the reachable states are listed, all of them can be looked up. -/
lemma graph_looksUp (a : Automaton) : LooksUp a.size (Leads a.states a.start) (Graph.ofAutomaton a) := by
  refine (reachable_looksUp a).bind_of_ok ?_
  intro order horder
  have hinside : ∀ id ∈ order, id < a.size := by
    intro id hid
    exact (reachable_looksUp a).ok_iff.1 ⟨order, horder⟩ id ((mem_reachable horder id).1 hid)
  obtain ⟨states, hstates, _⟩ := mapM_state_eq_ok hinside
  rw [hstates]
  exact ⟨_, rfl⟩

lemma initial_looksUp (a : Automaton) : LooksUp a.size (Path a.states a.start []) a.initial := by
  refine (closure_looksUp a (.singleton a.start)).congr ?_
  intro q
  simp only [StateSet.mem_singleton, exists_eq_left]

lemma summary_looksUp (a : Automaton) : LooksUp a.size (Leads a.states a.start) (Summary.ofAutomaton a) :=
  (graph_looksUp a).map _

/-! ## Runs -/

section Run

variable {σ : Type} {active : StateSet} {read rest : List Char} {c : Char} {q : Nat}

/-- The active states are in the arena, and are those that reading `read` leads to. -/
structure Active (a : Automaton) (read : List Char) (active : StateSet) : Prop where
  inside : ∀ q ∈ active, q < a.size
  mem_iff : ∀ q, q ∈ active ↔ Path a.states a.start read q

/-- Behind `read`, reading some of `rest` leads to `q`. -/
def Ahead (a : Automaton) (read rest : List Char) (q : Nat) : Prop :=
  ∃ u, u ≠ [] ∧ u <+: rest ∧ Path a.states a.start (read ++ u) q

lemma not_ahead_nil : ¬ a.Ahead read [] q := by
  intro h
  obtain ⟨u, hne, hstarts, _⟩ := h
  exact hne (List.prefix_nil.1 hstarts)

lemma ahead_cons : a.Ahead read (c :: rest) q ↔
    Path a.states a.start (read ++ [c]) q ∨ a.Ahead (read ++ [c]) rest q := by
  constructor
  · intro h
    obtain ⟨u, hne, hstarts, path⟩ := h
    obtain ⟨v, rfl, hv⟩ := (List.prefix_cons_iff.1 hstarts).resolve_left hne
    by_cases hnil : v = []
    · subst hnil
      exact .inl path
    · refine .inr ⟨v, hnil, hv, ?_⟩
      rw [List.append_assoc, List.singleton_append]
      exact path
  · intro h
    rcases h with path | ⟨v, _, hv, path⟩
    · exact ⟨[c], List.cons_ne_nil c [], ⟨rest, rfl⟩, path⟩
    · refine ⟨c :: v, List.cons_ne_nil c v, (List.prefix_cons_inj c).2 hv, ?_⟩
      rw [List.append_assoc, List.singleton_append] at path
      exact path

/-- What is read of the whole text is nothing or some of it. -/
lemma or_ahead_iff {w : List Char} : Path a.states a.start [] q ∨ a.Ahead [] w q ↔
    ∃ u, u <+: w ∧ Path a.states a.start u q := by
  constructor
  · intro h
    rcases h with path | ⟨u, _, hstarts, path⟩
    · exact ⟨[], List.nil_prefix, path⟩
    · exact ⟨u, hstarts, path⟩
  · intro h
    obtain ⟨u, hstarts, path⟩ := h
    by_cases hnil : u = []
    · subst hnil
      exact .inl path
    · exact .inr ⟨u, hnil, hstarts, path⟩

/-- Closing what leads on gives the next active states. -/
lemma Active.ofClosure {moved closed : StateSet}
    (hmoved : ∀ q, Path a.states a.start read q ↔ ∃ p ∈ moved, Path a.states p [] q)
    (hclosed : a.closure moved = .ok closed) : a.Active read closed := by
  obtain ⟨hinside, hmem⟩ := closure_eq_ok_iff.1 hclosed
  refine ⟨hinside, ?_⟩
  intro q
  rw [hmem q, hmoved q]

/-- The rest of a run looks up what reading more leads to.  A run that breaks off early has nothing more to look up. -/
lemma runFrom_looksUp (h : a.Active read active) (note : σ → Observation → σ) (consumed : Nat) (seen : σ)
    (rest : List Char) : LooksUp a.size (a.Ahead read rest) (a.runFrom note consumed active seen rest) := by
  induction rest generalizing read active consumed seen with
  | nil => exact .of_ok _ fun q hq => absurd hq not_ahead_nil
  | cons c rest ih =>
    obtain ⟨moved, hmove, hmem⟩ := move_eq_ok c h.inside
    rw [runFrom, hmove]
    by_cases hdead : moved.isEmpty = true
    · show LooksUp a.size _ (if moved.isEmpty = true then _ else _)
      rw [if_pos hdead]
      refine .of_ok _ fun q hq => ?_
      obtain ⟨u, hne, hstarts, path⟩ := hq
      obtain ⟨v, rfl, _⟩ := (List.prefix_cons_iff.1 hstarts).resolve_left hne
      obtain ⟨p, hp, _⟩ := (path_through_move h.mem_iff hmem).1 path
      exact absurd hp (StateSet.isEmpty_iff.1 hdead p)
    · show LooksUp a.size _ (if moved.isEmpty = true then _ else _)
      rw [if_neg hdead]
      have hnext : ∀ q, Path a.states a.start (read ++ [c]) q ↔ ∃ p ∈ moved, Path a.states p [] q :=
        fun q => path_through_move h.mem_iff hmem
      have hboth := (closure_looksUp a moved).bind fun closed hclosed =>
        ih (.ofClosure hnext hclosed) (consumed + 1) (note (note seen (.moved (consumed + 1) c active moved))
          (.closed (consumed + 1) moved closed))
      refine hboth.congr ?_
      intro q
      rw [ahead_cons, hnext]

/-- A run looks up what paths from the start reach that read some first part of the input. -/
theorem run_looksUp (a : Automaton) (note : σ → Observation → σ) (seen : σ) (input : String) :
    LooksUp a.size (fun q => ∃ u, u <+: input.toList ∧ Path a.states a.start u q) (a.run note seen input) := by
  have hstart : ∀ q, Path a.states a.start [] q ↔ ∃ p ∈ StateSet.singleton a.start, Path a.states p [] q := by
    intro q
    simp only [StateSet.mem_singleton, exists_eq_left]
  have hread : ∀ closed, a.closure (.singleton a.start) = .ok closed →
      LooksUp a.size (a.Ahead [] input.toList) (a.runFrom note 0 closed
        (note seen (.closed 0 (.singleton a.start) closed)) input.toList >>= fun r =>
          .ok (decide (a.accept ∈ r.1), note r.2 (.verdict (decide (a.accept ∈ r.1)) r.1))) := by
    intro closed hclosed
    exact (runFrom_looksUp (.ofClosure hstart hclosed) note 0 _ input.toList).bind_of_ok fun r _ => ⟨_, rfl⟩
  refine ((closure_looksUp a (.singleton a.start)).bind hread).congr ?_
  intro q
  rw [← hstart, or_ahead_iff]

/-! ## Every use of an automaton -/

lemma trace_looksUp (a : Automaton) (input : String) :
    LooksUp a.size (fun q => ∃ u, u <+: input.toList ∧ Path a.states a.start u q) (a.trace input) :=
  (run_looksUp a Trace.note {} input).map _

/-- Of a list of states that passes the checks, the searches and the graph look up what edges lead to from the start,
a run what reading some first part of the input leads to, and nothing else goes wrong.  So all of them have an answer,
whatever is read, if the edges lead to states of the list; that they do is not checked. -/
theorem uses_look_up {states : List State} {start accept : Nat} (h : ofStates states start accept = .ok a) :
    LooksUp states.length (Leads states start) a.reachable ∧
    LooksUp states.length (Leads states start) (Graph.ofAutomaton a) ∧
    LooksUp states.length (Leads states start) (Summary.ofAutomaton a) ∧
    LooksUp states.length (Path states start []) a.initial ∧
    (∀ input, LooksUp states.length (fun q => ∃ u, u <+: input.toList ∧ Path states start u q) (a.trace input)) ∧
    ((∀ s ∈ states, ∀ e ∈ s.edges, e.2 < states.length) →
      (∃ order, a.reachable = .ok order) ∧ (∃ g, Graph.ofAutomaton a = .ok g) ∧
      (∃ figures, Summary.ofAutomaton a = .ok figures) ∧ (∃ active, a.initial = .ok active) ∧
      ∀ input, ∃ t, a.trace input = .ok t) := by
  obtain ⟨rfl, rfl, rfl⟩ := ofStates_eq_ok.1 h
  refine ⟨reachable_looksUp a, graph_looksUp a, summary_looksUp a, initial_looksUp a, trace_looksUp a, ?_⟩
  intro hclosed
  have hpath : ∀ {w q}, Path a.states a.start w q → q < a.size := fun path => Closed.path_lt hclosed path a.start_lt
  have hleads : ∀ q, Leads a.states a.start q → q < a.size := fun _ leads => leads.elim fun _ => hpath
  refine ⟨(reachable_looksUp a).ok_iff.2 hleads, (graph_looksUp a).ok_iff.2 hleads,
    (summary_looksUp a).ok_iff.2 hleads, (initial_looksUp a).ok_iff.2 fun _ => hpath, ?_⟩
  intro input
  refine (trace_looksUp a input).ok_iff.2 ?_
  intro q hq
  obtain ⟨_, _, path⟩ := hq
  exact hpath path

end Run

/-- One state, whose only edge leads nowhere. -/
def dangling : Automaton where
  states := [{ id := 0, accepting := true, edges := [(.epsilon, 5)] }]
  start := 0
  accept := 0
  ids_eq := rfl
  start_lt := by decide
  accept_lt := by decide
  accepting_iff := by decide

/-- The edge that leads nowhere is met on every input, and an automaton with a cycle and loops, but no such edge, can be
run on any. -/
theorem uses_look_up_dangling :
    ofStates dangling.states 0 0 = .ok dangling ∧ (¬ ∃ order, dangling.reachable = .ok order) ∧
      (∀ input, ¬ ∃ t, dangling.trace input = .ok t) ∧
      ofStates tangled.states 0 2 = .ok tangled ∧ ∀ input, ∃ t, tangled.trace input = .ok t := by
  have hdangling : ofStates dangling.states 0 0 = .ok dangling := rfl
  have htangled : ofStates tangled.states 0 2 = .ok tangled := rfl
  obtain ⟨hreachable, _, _, _, htrace, _⟩ := uses_look_up hdangling
  obtain ⟨_, _, _, _, _, hinside⟩ := uses_look_up htangled
  obtain ⟨_, _, _, _, hruns⟩ := hinside (by decide)
  have hedge : Edge dangling.states 0 .epsilon 5 := ⟨_, rfl, List.mem_singleton_self _⟩
  refine ⟨hdangling, ?_, ?_, htangled, hruns⟩
  · rw [hreachable.ok_iff]
    exact fun hall => absurd (hall 5 (.ofEdge hedge)) (by decide)
  · intro input
    rw [(htrace input).ok_iff]
    exact fun hall => absurd (hall 5 ⟨[], List.nil_prefix, .ofEpsilon hedge⟩) (by decide)

/-- The edge can be added and the arena be frozen, and then no use has an answer, not even on the empty input. -/
theorem dangling_edge_passes_checks :
    (∃ arena, (Arena.fresh false).addState.2.connect 0 .epsilon 5 = .ok arena ∧ arena.finish ⟨0, 0⟩ = .ok dangling) ∧
      ofStates [{ id := 0, accepting := true, edges := [(.epsilon, 5)] }] 0 0 = .ok dangling ∧
      dangling.reachable = .error (.stateOutsideArena 1 5) ∧
      Graph.ofAutomaton dangling = .error (.stateOutsideArena 1 5) ∧
      Summary.ofAutomaton dangling = .error (.stateOutsideArena 1 5) ∧
      dangling.initial = .error (.stateOutsideArena 1 5) ∧
      dangling.trace "" = .error (.stateOutsideArena 1 5) := by
  have hreachable : dangling.reachable = .error (.stateOutsideArena 1 5) := by
    rw [reachable, explore_cons]
    show dangling.explore (fun _ => true) .queue [5] [0, 5] = _
    rw [explore_cons]
    rfl
  have hgraph : Graph.ofAutomaton dangling = .error (.stateOutsideArena 1 5) := by
    rw [Graph.ofAutomaton, hreachable]
    rfl
  have hinitial : dangling.initial = .error (.stateOutsideArena 1 5) := by
    show StateSet.ofList <$> dangling.explore Symbol.isEpsilon .stack [0] [0] = _
    rw [explore_cons]
    show StateSet.ofList <$> dangling.explore Symbol.isEpsilon .stack [5] [0, 5] = _
    rw [explore_cons]
    rfl
  refine ⟨⟨_, rfl, rfl⟩, rfl, hreachable, hgraph, ?_, hinitial, ?_⟩
  · rw [Summary.ofAutomaton, hgraph]
    rfl
  · show Prod.snd <$> (dangling.initial >>= _) = _
    rw [hinitial]
    rfl

end Automaton

end RegexNfa
