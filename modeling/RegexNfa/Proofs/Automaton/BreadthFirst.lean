import RegexNfa.Path.Distance
import RegexNfa.Proofs.Automaton.Reachable
import RegexNfa.Proofs.FirstSeen

/-!
# The order in which states are reached

A search with a queue meets states in the order in which the targets of the states it has met come first
(`explore_queue_handed`).  Its answer is therefore a list that is its own list of targets, put in first-seen order,
behind the start: `Handed`.  All that `BreadthFirst` asks for follows from this equation.  In particular first
predecessors come in the order of the states they enter (`Handed.predecessor_le`), which gives, by induction on a
walk, that what is listed before its end is not farther away (`Handed.exists_walk_le`).
-/

namespace RegexNfa

/-- Where the edges of state `p` lead, nowhere if there is no such state. -/
def successorsOf (states : List State) (p : Nat) : List Nat :=
  (states[p]?.map State.successors).getD []

variable {states : List State} {start p q r p' q' : Nat} {order : List Nat} {s : State}

lemma successorsOf_of_getElem? (hs : states[p]? = some s) : successorsOf states p = s.successors := by
  rw [successorsOf, hs]
  rfl

lemma mem_successorsOf : q ∈ successorsOf states p ↔ ∃ symbol, Edge states p symbol q := by
  constructor
  · intro hq
    cases hs : states[p]? with
    | none =>
      rw [successorsOf, hs] at hq
      exact absurd hq List.not_mem_nil
    | some s =>
      rw [successorsOf_of_getElem? hs] at hq
      obtain ⟨symbol, hedge⟩ := State.mem_successors.1 hq
      exact ⟨symbol, s, hs, hedge⟩
  · intro h
    obtain ⟨symbol, s, hs, hedge⟩ := h
    rw [successorsOf_of_getElem? hs]
    exact State.mem_successors.2 ⟨symbol, hedge⟩

/-- First predecessors are the states in whose targets a state comes first. -/
lemma firstPredecessor_iff : FirstPredecessor states order p q ↔ FirstWith (successorsOf states) order p q := by
  constructor
  · intro h
    refine ⟨h.listed, mem_successorsOf.2 h.edge, ?_⟩
    intro m hm hq
    obtain ⟨symbol, edge⟩ := mem_successorsOf.1 hq
    exact h.first m hm symbol edge
  · intro h
    refine ⟨h.listed, mem_successorsOf.1 h.has, ?_⟩
    intro m hm symbol edge
    exact h.first m hm (mem_successorsOf.2 ⟨symbol, edge⟩)

/-! ## Lists that hand on all their targets -/

/-- `order` is the start and all targets of its members, as they come first. -/
def Handed (states : List State) (start : Nat) (order : List Nat) : Prop :=
  order = firstSeen (start :: order.flatMap (successorsOf states))

namespace Handed

lemma nodup (h : Handed states start order) : order.Nodup := by
  rw [Handed] at h
  rw [h]
  exact nodup_firstSeen _

lemma head (h : Handed states start order) : order.head? = some start := by
  rw [Handed] at h
  rw [h]
  rfl

lemma mem_iff (h : Handed states start order) :
    q ∈ order ↔ q = start ∨ ∃ p ∈ order, ∃ symbol, Edge states p symbol q := by
  rw [Handed] at h
  conv_lhs => rw [h, mem_firstSeen, List.mem_cons, List.mem_flatMap]
  simp only [mem_successorsOf]

lemma start_mem (h : Handed states start order) : start ∈ order :=
  h.mem_iff.2 (.inl rfl)

lemma idxOf_start (h : Handed states start order) : order.idxOf start = 0 := by
  rw [Handed] at h
  rw [h, firstSeen, List.idxOf_cons_self]

/-- A walk from the start ends at a member. -/
lemma mem_of_walk {n : Nat} (h : Handed states start order) (walk : Walk states start n q) : q ∈ order := by
  induction walk with
  | here => exact h.start_mem
  | step _ edge ih => exact h.mem_iff.2 (.inr ⟨_, ih, _, edge⟩)

lemma exists_firstPredecessor (h : Handed states start order) (hq : q ∈ order) (hstart : q ≠ start) :
    ∃ p, FirstPredecessor states order p q := by
  obtain ⟨p, hp, hedge⟩ := (h.mem_iff.1 hq).resolve_left hstart
  have htarget : q ∈ order.flatMap (successorsOf states) :=
    List.mem_flatMap.2 ⟨p, hp, mem_successorsOf.2 hedge⟩
  obtain ⟨first, hfirst⟩ := exists_firstWith htarget
  exact ⟨first, firstPredecessor_iff.2 hfirst⟩

/-- Behind the start, the order of the list is the order of its targets. -/
lemma idxOf_lt_iff (h : Handed states start order) (hq : FirstPredecessor states order p q)
    (hr : FirstPredecessor states order p' r) (hqs : q ≠ start) (hrs : r ≠ start) :
    order.idxOf q < order.idxOf r ↔
      (order.flatMap (successorsOf states)).idxOf q < (order.flatMap (successorsOf states)).idxOf r := by
  have hmem : ∀ {x m}, FirstPredecessor states order x m → m ∈ start :: order.flatMap (successorsOf states) := by
    intro x m hm
    exact List.mem_cons_of_mem _ (List.mem_flatMap.2 ⟨x, hm.listed, mem_successorsOf.2 hm.edge⟩)
  have hplaces := idxOf_firstSeen_lt_iff (hmem hq) (hmem hr)
  rw [Handed] at h
  rw [← h, List.idxOf_cons_ne _ hqs.symm, List.idxOf_cons_ne _ hrs.symm] at hplaces
  rw [hplaces]
  exact Nat.succ_lt_succ_iff

/-- At one first predecessor, states are listed as its edges have them. -/
lemma idxOf_lt_of_sibling (h : Handed states start order) (hq : FirstPredecessor states order p q)
    (hr : FirstPredecessor states order p r) (hqs : q ≠ start) (hrs : r ≠ start)
    (hlt : (successorsOf states p).idxOf q < (successorsOf states p).idxOf r) :
    order.idxOf q < order.idxOf r := by
  rw [h.idxOf_lt_iff hq hr hqs hrs]
  exact (firstPredecessor_iff.1 hq).idxOf_lt_of_same (firstPredecessor_iff.1 hr) hlt

/-- Of two states, the one whose first predecessor is listed first is listed first. -/
lemma idxOf_lt_of_predecessor (h : Handed states start order) (hq : FirstPredecessor states order p q)
    (hr : FirstPredecessor states order p' r) (hqs : q ≠ start) (hrs : r ≠ start)
    (hlt : order.idxOf p < order.idxOf p') : order.idxOf q < order.idxOf r := by
  rw [h.idxOf_lt_iff hq hr hqs hrs]
  exact (firstPredecessor_iff.1 hq).idxOf_lt_of_earlier (firstPredecessor_iff.1 hr) hlt

/-- What is listed before the end of a walk is the end of a walk that is no longer. -/
lemma exists_walk_le {n : Nat} (h : Handed states start order) (walk : Walk states start n q) (hr : r ∈ order)
    (hle : order.idxOf r ≤ order.idxOf q) : ∃ m ≤ n, Walk states start m r := by
  induction walk generalizing r with
  | here =>
    rw [h.idxOf_start, Nat.le_zero, ← h.idxOf_start, List.idxOf_inj hr] at hle
    rw [hle]
    exact ⟨0, Nat.le_refl 0, .here⟩
  | @step n m q symbol walk edge ih =>
    by_cases hrs : r = start
    · rw [hrs]
      exact ⟨0, Nat.zero_le _, .here⟩
    · -- the first predecessors of `r` and of `q` are listed as these are, that of `q` no later than `m`
      have hq : q ∈ order := h.mem_of_walk (.step walk edge)
      have hqs : q ≠ start := by
        intro hqs
        rw [hqs, h.idxOf_start, Nat.le_zero, ← h.idxOf_start, List.idxOf_inj hr] at hle
        exact hrs hle
      obtain ⟨p, hp⟩ := h.exists_firstPredecessor hr hrs
      obtain ⟨p', hp'⟩ := h.exists_firstPredecessor hq hqs
      have hpredecessors : order.idxOf p ≤ order.idxOf p' := by
        by_contra hlater
        have hlt := h.idxOf_lt_of_predecessor hp' hp hqs hrs (Nat.lt_of_not_le hlater)
        omega
      have hfirst := hp'.first m (h.mem_of_walk walk) symbol edge
      obtain ⟨k, hk, hwalk⟩ := ih hp.listed (Nat.le_trans hpredecessors hfirst)
      obtain ⟨entering, hentering⟩ := hp.edge
      exact ⟨k + 1, Nat.succ_le_succ hk, .step hwalk hentering⟩

/-- At one distance from the start two different states are both not the start. -/
lemma ne_start_of_distance {n : Nat} (hq : Distance states start q n) (hr : Distance states start r n) (hne : q ≠ r) :
    q ≠ start := by
  rintro rfl
  obtain rfl := Nat.le_zero.1 (hq.2 0 .here)
  cases hr.1
  exact hne rfl

/-- A list that hands on all its targets is breadth first, once it has nothing but what the start leads to. -/
theorem breadthFirst (h : Handed states start order) (hcomplete : ∀ q, q ∈ order ↔ Leads states start q) :
    BreadthFirst states start order where
  nodup := h.nodup
  head := h.head
  complete := hcomplete
  distant q hq := ((hcomplete q).1 hq).exists_distance
  nearest := by
    refine List.pairwise_iff_getElem.2 ?_
    intro i j hi hj hij m n hm hn
    have hplaces : order.idxOf order[i] ≤ order.idxOf order[j] := by
      rw [h.nodup.idxOf_getElem, h.nodup.idxOf_getElem]
      exact Nat.le_of_lt hij
    obtain ⟨k, hk, walk⟩ := h.exists_walk_le hn.1 (List.getElem_mem hi) hplaces
    exact Nat.le_trans (hm.2 k walk) hk
  entered _ hq hstart := h.exists_firstPredecessor hq hstart
  predecessors := by
    intro n q r p p' hqn hrn hp hp' hlt
    by_cases hqr : q = r
    · -- the first predecessor of a state is one state
      subst hqr
      obtain ⟨symbol, edge⟩ := hp.edge
      have hle := hp'.first p hp.listed symbol edge
      omega
    · exact h.idxOf_lt_of_predecessor hp hp' (ne_start_of_distance hqn hrn hqr)
        (ne_start_of_distance hrn hqn (Ne.symm hqr)) hlt
  siblings := by
    intro n q r p s hqn hrn hp hp' hs hlt
    have hqr : q ≠ r := by
      rintro rfl
      exact Nat.lt_irrefl _ hlt
    refine h.idxOf_lt_of_sibling hp hp' (ne_start_of_distance hqn hrn hqr)
      (ne_start_of_distance hrn hqn hqr.symm) ?_
    rw [successorsOf_of_getElem? hs]
    exact hlt

end Handed

/-! ## The search with a queue -/

/-- The loop invariant of a search with a queue: the states met are those done and, behind them, those pending, and
they are the start and all targets of those done, as they come first. -/
def Queueing (states : List State) (start : Nat) (pending seen : List Nat) : Prop :=
  ∃ done, seen = done ++ pending ∧ seen = firstSeen (start :: done.flatMap (successorsOf states))

variable {pending rest seen found : List Nat} {id : Nat}

lemma queueing_start (states : List State) (start : Nat) : Queueing states start [start] [start] :=
  ⟨[], rfl, rfl⟩

/-- When nothing is pending, all targets have been handed on. -/
lemma Queueing.handed (h : Queueing states start [] seen) : Handed states start seen := by
  obtain ⟨done, hseen, hfirst⟩ := h
  rw [List.append_nil] at hseen
  rw [← hseen] at hfirst
  exact hfirst

lemma State.targetsAlong_all (s : State) : s.targetsAlong (fun _ => true) = s.successors := by
  rw [targetsAlong, List.filter_true]
  rfl

open Automaton in
/-- One round keeps the invariant. -/
lemma Queueing.round {a : Automaton} (h : Queueing a.states start (id :: rest) seen) (hs : a.states[id]? = some s) :
    Queueing a.states start (Discipline.queue.join (newcomers seen (s.targetsAlong fun _ => true)) rest)
      (seen ++ newcomers seen (s.targetsAlong fun _ => true)) := by
  obtain ⟨done, hseen, hfirst⟩ := h
  refine ⟨done ++ [id], ?_, ?_⟩
  · rw [hseen, Discipline.join, List.append_assoc, List.append_assoc, List.singleton_append, List.cons_append]
  · rw [List.flatMap_append, List.flatMap_singleton, ← List.cons_append, firstSeen_append, ← hfirst, newcomers,
      State.targetsAlong_all, successorsOf_of_getElem? hs]

namespace Automaton

variable {a : Automaton}

/-- A search with a queue hands on all targets. -/
lemma explore_queue_handed (h : Queueing a.states start pending seen)
    (hfound : a.explore (fun _ => true) .queue pending seen = .ok found) : Handed a.states start found := by
  induction pending, seen using Automaton.explore.induct a (fun _ => true) .queue with
  | case1 seen =>
    rw [explore_nil] at hfound
    obtain rfl := Except.ok.inj hfound
    exact h.handed
  | case2 seen id rest fault hfault =>
    rw [explore_cons, hfault] at hfound
    cases hfound
  | case3 seen id rest s hs new ih =>
    rw [explore_cons, Fault.bind_eq_ok] at hfound
    obtain ⟨s', hs', hrest⟩ := hfound
    rw [hs] at hs'
    obtain rfl := Except.ok.inj hs'
    exact ih (h.round (state_eq_ok.1 hs)) hrest

/-- What can be reached is listed breadth first. -/
theorem Closed.reachable_breadthFirst (ha : a.Closed) :
    ∃ order, a.reachable = .ok order ∧ BreadthFirst a.states a.start order := by
  obtain ⟨order, horder, _, hcomplete⟩ := ha.exists_reachable
  have hhanded : Handed a.states a.start order :=
    explore_queue_handed (queueing_start a.states a.start) horder
  exact ⟨order, horder, hhanded.breadthFirst hcomplete⟩

/-- Edges of one symbol around those of another, two symbols to one state, a loop, an edge back to the start, a state
that is entered from two, and a state that nothing leads to. -/
def braided : Automaton where
  states := [
    { id := 0, edges := [(.char 'b', 3), (.epsilon, 1), (.char 'b', 2), (.char 'a', 3)] },
    { id := 1, edges := [(.epsilon, 4), (.epsilon, 4)] },
    { id := 2, edges := [(.char 'a', 5), (.char 'a', 2), (.epsilon, 4)] },
    { id := 3, edges := [(.epsilon, 0), (.char 'ε', 0)] },
    { id := 4, accepting := true },
    { id := 5, edges := [(.char 'b', 1)] },
    { id := 6, edges := [(.epsilon, 0)] }]
  start := 0
  accept := 4
  ids_eq := rfl
  start_lt := by decide
  accept_lt := by decide
  accepting_iff := by decide

/-- An exploration does not compute, so it is gone through round by round. -/
lemma braided_reachable : braided.reachable = .ok [0, 3, 2, 1, 5, 4] := by
  rw [reachable, explore_cons]
  show braided.explore (fun _ => true) .queue [3, 2, 1] [0, 3, 2, 1] = _
  rw [explore_cons]
  show braided.explore (fun _ => true) .queue [2, 1] [0, 3, 2, 1] = _
  rw [explore_cons]
  show braided.explore (fun _ => true) .queue [1, 5, 4] [0, 3, 2, 1, 5, 4] = _
  rw [explore_cons]
  show braided.explore (fun _ => true) .queue [5, 4] [0, 3, 2, 1, 5, 4] = _
  rw [explore_cons]
  show braided.explore (fun _ => true) .queue [4] [0, 3, 2, 1, 5, 4] = _
  rw [explore_cons]
  exact explore_nil _ _ _ _

theorem braided_reachable_breadthFirst :
    braided.Closed ∧ BreadthFirst braided.states 0 [0, 3, 2, 1, 5, 4] := by
  have hclosed : braided.Closed := by decide
  obtain ⟨order, horder, hbreadth⟩ := hclosed.reachable_breadthFirst
  rw [braided_reachable] at horder
  obtain rfl := Except.ok.inj horder
  exact ⟨hclosed, hbreadth⟩

end Automaton

end RegexNfa
