import RegexNfa.Proofs.Compilation.Layout
import RegexNfa.Proofs.Expression.Readback

/-!
# When two texts have the same automaton

Two texts that spell an expression have equal automata exactly if the expressions are equal up to the grouping
of concatenations.  Equality may be taken literally, edge by edge in the order of insertion, or as what look-ups
show (`Automaton.Alike`): the edges out of a state of a compiled automaton all have one symbol, so the targets
of each symbol determine them (`State.edges_eq_of_targets`).
-/

namespace RegexNfa

/-! ## States and automata that look-ups do not tell apart -/

/-- All edges have one symbol. -/
def State.Uniform (s : State) : Prop :=
  ∃ (symbol : Symbol) (targets : List Nat), s.edges = targets.map (symbol, ·)

namespace State

variable {s t : State}

lemma targets_eq_of_edges {symbol : Symbol} {targets : List Nat} (h : s.edges = targets.map (symbol, ·))
    (other : Symbol) : s.targets other = if symbol = other then targets else [] := by
  rw [State.targets, filedUnder, h]
  by_cases hsymbol : symbol = other
  · simp [hsymbol, List.filter_map, Function.comp_def]
  · simp [hsymbol, List.filter_map, Function.comp_def]

/-- Targets by symbol determine edges that all have one symbol. -/
lemma edges_eq_of_targets (hs : s.Uniform) (ht : t.Uniform)
    (h : ∀ symbol, s.targets symbol = t.targets symbol) : s.edges = t.edges := by
  obtain ⟨symbol, targets, hs⟩ := hs
  obtain ⟨symbol', targets', ht⟩ := ht
  have hfirst := h symbol
  have hsecond := h symbol'
  rw [targets_eq_of_edges hs, targets_eq_of_edges ht] at hfirst hsecond
  by_cases hsame : symbol = symbol'
  · subst hsame
    rw [if_pos rfl, if_pos rfl] at hfirst
    rw [hs, ht, hfirst]
  · rw [if_pos rfl, if_neg (Ne.symm hsame)] at hfirst
    rw [if_neg hsame, if_pos rfl] at hsecond
    rw [hs, ht, hfirst, ← hsecond, List.map_nil, List.map_nil]

end State

/-- Every state of a layout is uniform. -/
lemma Expression.uniform_of_mem_layout {n : Nat} {onward : List Nat} {e : Expression} :
    ∀ s ∈ e.layout n onward, s.Uniform := by
  intro s hs
  rcases List.mem_append.1 hs with hs | hs
  · cases e.inner_of_mem_body n s hs with
    | char => exact ⟨_, [_], rfl⟩
    | one => exact ⟨_, [_], rfl⟩
    | two => exact ⟨_, [_, _], rfl⟩
  · rw [List.mem_singleton.1 hs]
    exact ⟨.epsilon, onward, rfl⟩

namespace Automaton

variable {m m' : Automaton}

/-- As many states, the same start and accepting state, and from every state on every symbol the same targets
in the same order. -/
structure Alike (m m' : Automaton) : Prop where
  size_eq : m.size = m'.size
  start_eq : m.start = m'.start
  accept_eq : m.accept = m'.accept
  targets_eq : ∀ id symbol, m.targets id symbol = m'.targets id symbol

lemma Alike.refl (m : Automaton) : m.Alike m :=
  ⟨rfl, rfl, rfl, fun _ _ => rfl⟩

lemma ext_states (hstates : m.states = m'.states) (hstart : m.start = m'.start)
    (haccept : m.accept = m'.accept) : m = m' := by
  obtain ⟨states, start, accept⟩ := m
  obtain ⟨states', start', accept'⟩ := m'
  subst hstates hstart haccept
  rfl

/-- Automata are equal if they have as many states, with the same edges, and the same start and accepting state. -/
lemma ext_edges (hsize : m.size = m'.size) (hstart : m.start = m'.start) (haccept : m.accept = m'.accept)
    (hedges : ∀ s ∈ m.states, ∀ t ∈ m'.states, s.id = t.id → s.edges = t.edges) : m = m' := by
  refine ext_states (List.ext_getElem hsize ?_) hstart haccept
  intro i hi hi'
  have hid : m.states[i].id = m'.states[i].id := by
    rw [m.id_getElem hi, m'.id_getElem hi']
  have haccepting : m.states[i].accepting = m'.states[i].accepting := by
    rw [m.accepting_iff _ (List.getElem_mem hi), m'.accepting_iff _ (List.getElem_mem hi'), hid, haccept]
  exact State.mk.injEq .. |>.mpr ⟨hid, haccepting, hedges _ (List.getElem_mem hi) _ (List.getElem_mem hi') hid⟩

lemma targets_of_mem {s : State} (hs : s ∈ m.states) (symbol : Symbol) :
    m.targets s.id symbol = .ok (s.targets symbol) := by
  obtain ⟨i, hi, rfl⟩ := List.mem_iff_getElem.1 hs
  rw [m.id_getElem hi, targets, state, State.lookup_of_lt hi]
  rfl

/-- Automata with uniform states are equal if look-ups do not tell them apart. -/
lemma Alike.eq (h : m.Alike m') (hm : ∀ s ∈ m.states, s.Uniform) (hm' : ∀ s ∈ m'.states, s.Uniform) :
    m = m' := by
  refine ext_edges h.size_eq h.start_eq h.accept_eq ?_
  intro s hs t ht hid
  refine State.edges_eq_of_targets (hm s hs) (hm' t ht) ?_
  intro symbol
  have htargets := h.targets_eq s.id symbol
  rw [targets_of_mem hs, hid, targets_of_mem ht] at htargets
  exact Except.ok.inj htargets

/-! ## Automata of expressions -/

variable {e f : Expression}

/-- The automata of two expressions are equal exactly if regrouping makes the expressions equal. -/
lemma LaidOut.eq_iff (hm : m.LaidOut e) (hm' : m'.LaidOut f) : m = m' ↔ e.regrouped = f.regrouped := by
  rw [← Expression.layout_eq_iff 0 [], ← hm.states_eq, ← hm'.states_eq, ← hm.start_eq, ← hm'.start_eq]
  constructor
  · intro h
    rw [h]
    exact ⟨rfl, rfl⟩
  · intro h
    refine ext_states h.1 h.2 ?_
    have hsize : e.size = f.size := by
      rw [← e.length_layout 0 [], ← f.length_layout 0 [], ← hm.states_eq, ← hm'.states_eq, h.1]
    rw [hm.accept_eq, hm'.accept_eq, Expression.exit_eq_of_size_eq hsize]

lemma LaidOut.alike_iff (hm : m.LaidOut e) (hm' : m'.LaidOut f) : m.Alike m' ↔ m = m' := by
  constructor
  · intro h
    refine h.eq ?_ ?_
    · rw [hm.states_eq]
      exact Expression.uniform_of_mem_layout
    · rw [hm'.states_eq]
      exact Expression.uniform_of_mem_layout
  · intro h
    rw [h]
    exact .refl m'

end Automaton

/-- Two texts have equal automata exactly if their expressions are equal once chains of concatenations are
regrouped; and automata that look-ups do not tell apart are equal. -/
theorem automaton_eq_iff_regrouped {s t : String} {x y : ParseTree} (hs : Spells s.toList x)
    (ht : Spells t.toList y) (logging logging' : Bool) :
    ∃ c d, compile s logging = .ok c ∧ compile t logging' = .ok d ∧
      (c.automaton = d.automaton ↔ x.expression.regrouped = y.expression.regrouped) ∧
      (c.automaton.Alike d.automaton ↔ x.expression.regrouped = y.expression.regrouped) := by
  obtain ⟨c, hc, hlaid, _⟩ := compile_laid_out hs logging
  obtain ⟨d, hd, hlaid', _⟩ := compile_laid_out ht logging'
  refine ⟨c, d, hc, hd, hlaid.eq_iff hlaid', ?_⟩
  rw [hlaid.alike_iff hlaid', hlaid.eq_iff hlaid']

/-- Two ways to bracket three factors: different expressions, one automaton. -/
theorem automaton_eq_iff_regrouped_brackets :
    ∃ x y, Spells "a(bc)".toList x ∧ Spells "(ab)c".toList y ∧ x.expression ≠ y.expression ∧
      ∃ c d, compile "a(bc)" = .ok c ∧ compile "(ab)c" = .ok d ∧ c.automaton = d.automaton := by
  have hright : Derives .alternation 2 (['b'] ++ ['c']) _ :=
    .sequence (.concat (.repetition (.atom (.literal rfl))) (.atom (.literal rfl)))
  have hleft : Derives .alternation 1 (['a'] ++ ['b']) _ :=
    .sequence (.concat (.repetition (.atom (.literal rfl))) (.atom (.literal rfl)))
  have hx : Spells "a(bc)".toList _ :=
    .sequence (.concat (.repetition (.atom (.literal rfl))) (.atom (.group hright)))
  have hy : Spells "(ab)c".toList _ :=
    .sequence (.concat (.repetition (.atom (.group hleft))) (.atom (.literal rfl)))
  obtain ⟨c, d, hc, hd, hequal, _⟩ := automaton_eq_iff_regrouped hx hy false false
  exact ⟨_, _, hx, hy, by decide, c, d, hc, hd, hequal.2 rfl⟩

end RegexNfa
