import RegexNfa.StateSet

/-!
# Automata

An automaton is an arena of states frozen with a start state and one accepting state.  What
`Automaton.ofStates` checks is part of the type: ids are positions, both designated states are in the
arena, and the accepting flag stands exactly at `accept`.

Targets of edges are not checked.  An automaton all of whose edges stay inside the arena is `Closed`;
on such an automaton no operation of the library meets a fault.
-/

namespace RegexNfa

structure Automaton where
  /-- the arena -/
  states : List State
  start : Nat
  accept : Nat
  ids_eq : states.map State.id = List.range states.length
  start_lt : start < states.length
  accept_lt : accept < states.length
  accepting_iff : ∀ s ∈ states, s.accepting = decide (s.id = accept)
deriving DecidableEq

namespace Automaton

/-- Freezes an arena.  Of several broken preconditions the first in this order is reported: ids,
designated states, accepting flags. -/
def ofStates (states : List State) (start accept : Nat) : Except Fault Automaton :=
  if ids : states.map State.id = List.range states.length then
    if inside : start < states.length ∧ accept < states.length then
      if sole : ∀ s ∈ states, s.accepting = decide (s.id = accept) then
        .ok ⟨states, start, accept, ids, inside.1, inside.2, sole⟩
      else .error .acceptNotSole
    else .error .endpointsOutsideArena
  else .error .idsNotPositions

/-- The number of states. -/
def size (a : Automaton) : Nat := a.states.length

def isEmpty (a : Automaton) : Bool := a.states.isEmpty

/-- The state with a given id. -/
def state (a : Automaton) (id : Nat) : Except Fault State :=
  State.lookup a.states id

/-- Where the edges of state `id` labelled `symbol` lead, oldest first. -/
def targets (a : Automaton) (id : Nat) (symbol : Symbol) : Except Fault (List Nat) := do
  return (← a.state id).targets symbol

def isAccepting (a : Automaton) (id : Nat) : Except Fault Bool := do
  return (← a.state id).accepting

/-- The characters on the edges of any state, reachable or not, by code point. -/
def alphabet (a : Automaton) : List Char :=
  (firstSeen (a.states.flatMap fun s => s.edges.filterMap (·.1.char?))).mergeSort (· ≤ ·)

/-- Every edge leads to a state of the arena. -/
def Closed (a : Automaton) : Prop :=
  ∀ s ∈ a.states, ∀ e ∈ s.edges, e.2 < a.size

instance (a : Automaton) : Decidable a.Closed :=
  inferInstanceAs (Decidable (∀ s ∈ a.states, ∀ e ∈ s.edges, e.2 < a.size))

/-! ## Small facts -/

theorem ofStates_eq_ok {states : List State} {start accept : Nat} {a : Automaton} :
    ofStates states start accept = .ok a ↔
      a.states = states ∧ a.start = start ∧ a.accept = accept := by
  obtain ⟨ss, st, ac, h₁, h₂, h₃, h₄⟩ := a
  unfold ofStates
  constructor
  · intro h
    split at h
    · split at h
      · split at h
        · simp_all
        · simp at h
      · simp at h
    · simp at h
  · rintro ⟨rfl, rfl, rfl⟩
    rw [dif_pos h₁, dif_pos ⟨h₂, h₃⟩, dif_pos h₄]

/-- A state's id is its position. -/
theorem id_getElem (a : Automaton) {i : Nat} (h : i < a.states.length) : a.states[i].id = i := by
  have := congrArg (·[i]?) a.ids_eq
  simpa [h] using this

end Automaton

end RegexNfa
