import RegexNfa.Automaton

/-!
# Paths

`Path states p w q` says that edges lead from state `p` to state `q` whose characters spell `w`, ε edges
spelling nothing.  It is a relation on a list of states, so it speaks of an automaton and of an arena
that is still growing alike.

`path_append` cuts a path where its text is cut, and `path_cons` takes the first character off it.
-/

namespace RegexNfa

/-- State `p` has an edge labelled `symbol` to `q`. -/
def Edge (states : List State) (p : Nat) (symbol : Symbol) (q : Nat) : Prop :=
  ∃ s, states[p]? = some s ∧ (symbol, q) ∈ s.edges

/-- Edges from `p` to `q` spell `w`. -/
inductive Path (states : List State) : Nat → List Char → Nat → Prop where
  | here (p : Nat) : Path states p [] p
  | epsilon {p q r : Nat} {w : List Char} (edge : Edge states p .epsilon q) (rest : Path states q w r) :
      Path states p w r
  | char {p q r : Nat} {c : Char} {w : List Char} (edge : Edge states p (.char c) q)
      (rest : Path states q w r) : Path states p (c :: w) r

variable {states : List State} {p q r : Nat} {u v w : List Char} {c : Char}

theorem Edge.lt_length {symbol : Symbol} (h : Edge states p symbol q) : p < states.length := by
  obtain ⟨s, hs, _⟩ := h
  exact (List.getElem?_eq_some_iff.1 hs).1

namespace Path

theorem append (left : Path states p u q) (right : Path states q v r) : Path states p (u ++ v) r := by
  induction left with
  | here p => exact right
  | epsilon edge _ ih => exact .epsilon edge (ih right)
  | char edge _ ih => exact .char edge (ih right)

theorem ofEpsilon (edge : Edge states p .epsilon q) : Path states p [] q :=
  .epsilon edge (.here q)

theorem ofChar (edge : Edge states p (.char c) q) : Path states p [c] q :=
  .char edge (.here q)

end Path

/-- The first character of a path is read after some ε edges. -/
theorem path_cons :
    Path states p (c :: w) r ↔
      ∃ q q', Path states p [] q ∧ Edge states q (.char c) q' ∧ Path states q' w r := by
  constructor
  · intro h
    generalize htext : c :: w = text at h
    induction h with
    | here => exact absurd htext (by simp)
    | epsilon edge _ ih =>
      obtain ⟨q, q', hq, hedge, hrest⟩ := ih htext
      exact ⟨q, q', .epsilon edge hq, hedge, hrest⟩
    | char edge rest =>
      obtain ⟨rfl, rfl⟩ := List.cons.inj htext
      exact ⟨_, _, .here _, edge, rest⟩
  · rintro ⟨q, q', hq, edge, rest⟩
    have h := hq.append (.char edge rest)
    exact h

/-- A path that spells two texts in turn is in some state between them. -/
theorem path_append :
    Path states p (u ++ v) r ↔ ∃ q, Path states p u q ∧ Path states q v r := by
  constructor
  · intro h
    induction u generalizing p with
    | nil => exact ⟨p, .here p, h⟩
    | cons c u ih =>
      obtain ⟨q, q', hq, edge, rest⟩ := path_cons.1 h
      obtain ⟨m, hm, hv⟩ := ih rest
      exact ⟨m, path_cons.2 ⟨q, q', hq, edge, hm⟩, hv⟩
  · rintro ⟨q, left, right⟩
    exact left.append right

/-- A character in the middle of a path is read by one edge. -/
theorem path_append_cons :
    Path states p (u ++ c :: v) r ↔ ∃ q q', Path states p u q ∧ Edge states q (.char c) q' ∧ Path states q' v r := by
  constructor
  · intro h
    obtain ⟨m, left, right⟩ := path_append.1 h
    obtain ⟨q, q', hq, edge, rest⟩ := path_cons.1 right
    have hread := left.append hq
    rw [List.append_nil] at hread
    exact ⟨q, q', hread, edge, rest⟩
  · rintro ⟨q, q', left, edge, rest⟩
    exact left.append (.char edge rest)

namespace Automaton

/-- Edges of a closed automaton lead to its states. -/
theorem Closed.edge_lt {a : Automaton} (h : a.Closed) {symbol : Symbol}
    (edge : Edge a.states p symbol q) : q < a.size := by
  obtain ⟨s, hs, hmem⟩ := edge
  exact h s (List.mem_of_getElem? hs) _ hmem

/-- Paths of a closed automaton stay among its states. -/
theorem Closed.path_lt {a : Automaton} (h : a.Closed) (path : Path a.states p w q)
    (hp : p < a.size) : q < a.size := by
  induction path with
  | here p => exact hp
  | epsilon edge _ ih => exact ih (h.edge_lt edge)
  | char edge _ ih => exact ih (h.edge_lt edge)

end Automaton

end RegexNfa
