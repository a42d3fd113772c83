import RegexNfa.Automaton.Exploration

/-!
# Running an automaton

A run tracks the set of active states: close the start state, then for every character move and close
again.  A move that enters no state ends the run at once, since nothing can revive an empty set.

Every change is reported to an observer, a function that folds observations into a value of its own.
Acceptance, the recorded trace and the narrated lines are three observers of the same run.
-/

namespace RegexNfa

/-- A change of the active set, as it happens.  `consumed` counts the characters read once the change is
made. -/
inductive Observation where
  /-- ε edges were followed from `seed` -/
  | closed (consumed : Nat) (seed closure : StateSet)
  /-- one character was read -/
  | moved (consumed : Nat) (c : Char) (before after : StateSet)
  /-- the run is over -/
  | verdict (accepted : Bool) (active : StateSet)
deriving DecidableEq

namespace Automaton

variable {σ : Type}

/-- Reads the rest of an input with `active` states and `consumed` characters behind it.  The answer is
the last active set and what the observer made of the run. -/
def runFrom (a : Automaton) (note : σ → Observation → σ) (consumed : Nat) (active : StateSet)
    (seen : σ) : List Char → Except Fault (StateSet × σ)
  | [] => .ok (active, seen)
  | c :: rest => do
    let moved ← a.move active c
    let seen := note seen (.moved (consumed + 1) c active moved)
    if moved.isEmpty then
      return (moved, seen)
    let closure ← a.closure moved
    a.runFrom note (consumed + 1) closure (note seen (.closed (consumed + 1) moved closure)) rest

/-- Runs the automaton on an input under an observer; the input is accepted if the accepting state is
active at the end. -/
def run (a : Automaton) (note : σ → Observation → σ) (seen : σ) (input : String) :
    Except Fault (Bool × σ) := do
  let seed := StateSet.singleton a.start
  let closure ← a.closure seed
  let (active, seen) ← a.runFrom note 0 closure (note seen (.closed 0 seed closure)) input.toList
  let accepted := decide (a.accept ∈ active)
  return (accepted, note seen (.verdict accepted active))

/-- Whether the whole input is matched. -/
def accepts (a : Automaton) (input : String) : Except Fault Bool :=
  Prod.fst <$> a.run (fun seen _ => seen) () input

end Automaton

end RegexNfa
