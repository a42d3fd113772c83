import RegexNfa.Automaton

/-!
# Building with fragments

An arena is a growing list of states.  A fragment is a piece of it with one entry and one accepting
exit.  Four rules make fragments: a character, and the concatenation, union and repetition of fragments
made before.  Each rule adds its own states at the end of the arena, numbers them from the arena's size
on, and lets every exit it takes over stop accepting.

An arena can keep a log of the rules applied.
-/

namespace RegexNfa

/-- A piece of an arena with a single entry and a single exit. -/
structure Fragment where
  entry : Nat
  exit : Nat
deriving DecidableEq, Repr

/-- A rule as applied, with the states it touched. -/
inductive Rule where
  /-- `entry` to `exit` on a character -/
  | char (c : Char) (entry exit : Nat)
  /-- ε from the exit of the left fragment to the entry of the right one -/
  | concat (source target : Nat)
  /-- new entry and exit around two alternatives -/
  | union (entry exit : Nat)
  /-- new entry and exit around a repeated fragment -/
  | star (entry exit : Nat)
deriving DecidableEq, Repr

namespace Rule

/-- One line of text; the character of a character rule is written raw. -/
def describe : Rule → String
  | char c entry exit => "char '" ++ String.singleton c ++ s!"': S{entry} → S{exit}"
  | concat source target => s!"concat: S{source} → S{target}"
  | union entry exit => s!"union: S{entry} (start), S{exit} (accept)"
  | star entry exit => s!"star: S{entry} (start), S{exit} (accept)"

end Rule

structure Arena where
  states : List State := []
  /-- the rules applied so far, oldest first, if they are logged -/
  log? : Option (List Rule) := none
deriving DecidableEq, Repr

namespace Arena

/-- An arena without states. -/
def fresh (logging : Bool) : Arena where
  log? := if logging then some [] else none

/-- The number of states, which is also the next id. -/
def size (a : Arena) : Nat := a.states.length

def isEmpty (a : Arena) : Bool := a.states.isEmpty

/-- The rules applied; none when they are not logged. -/
def log (a : Arena) : List Rule := a.log?.getD []

def state (a : Arena) (id : Nat) : Except Fault State :=
  State.lookup a.states id

def record (a : Arena) (rule : Rule) : Arena :=
  { a with log? := a.log?.map (· ++ [rule]) }

/-- The arena with one more state, given its id. -/
def push (a : Arena) (state : Nat → State) : Arena :=
  { a with states := a.states ++ [state a.size] }

/-- The arena with state `id` changed. -/
def modify (a : Arena) (id : Nat) (change : State → State) : Except Fault Arena :=
  if id < a.size then .ok { a with states := a.states.modify id change }
  else .error (.stateOutsideArena a.size id)

/-- Adds a state without edges that does not accept. -/
def addState (a : Arena) : Nat × Arena :=
  (a.size, a.push fun id => { id })

/-- Adds an edge.  The source must be in the arena, the target is not looked at. -/
def connect (a : Arena) (source : Nat) (symbol : Symbol) (target : Nat) : Except Fault Arena :=
  a.modify source (·.addEdge symbol target)

def setAccepting (a : Arena) (id : Nat) (accepting : Bool) : Except Fault Arena :=
  a.modify id ({ · with accepting })

/-- Takes over an exit. -/
def absorb (a : Arena) (exit : Nat) (targets : List Nat) : Except Fault Arena :=
  a.modify exit (State.takenOver targets)

/-! ## The four rules -/

/-- Adds an entry with the given edges and, next to it, an accepting exit. -/
def addPair (a : Arena) (edges : List (Symbol × Nat)) : Arena :=
  (a.push fun id => { id, edges }).push fun id => { id, accepting := true }

/-- A fragment for one character. -/
def char (a : Arena) (c : Char) : Fragment × Arena :=
  let entry := a.size
  let exit := entry + 1
  (⟨entry, exit⟩, (a.addPair [(.char c, exit)]).record (.char c entry exit))

/-- One fragment after the other. -/
def concat (a : Arena) (left right : Fragment) : Except Fault (Fragment × Arena) := do
  let a ← a.absorb left.exit [right.entry]
  return (⟨left.entry, right.exit⟩, a.record (.concat left.exit right.entry))

/-- One fragment or the other. -/
def union (a : Arena) (left right : Fragment) : Except Fault (Fragment × Arena) := do
  let entry := a.size
  let exit := entry + 1
  let a ← (a.addPair [(.epsilon, left.entry), (.epsilon, right.entry)]).absorb left.exit [exit]
  let a ← a.absorb right.exit [exit]
  return (⟨entry, exit⟩, a.record (.union entry exit))

/-- A fragment any number of times. -/
def star (a : Arena) (inner : Fragment) : Except Fault (Fragment × Arena) := do
  let entry := a.size
  let exit := entry + 1
  let a ← (a.addPair [(.epsilon, inner.entry), (.epsilon, exit)]).absorb inner.exit [inner.entry, exit]
  return (⟨entry, exit⟩, a.record (.star entry exit))

/-- Freezes the arena into an automaton that runs from the fragment's entry to its exit. -/
def finish (a : Arena) (whole : Fragment) : Except Fault Automaton := do
  let a ← a.setAccepting whole.exit true
  Automaton.ofStates a.states whole.entry whole.exit

/-! ## Sizes and logs -/

@[simp] theorem size_push (a : Arena) (state : Nat → State) : (a.push state).size = a.size + 1 := by
  simp [push, size]

@[simp] theorem size_addPair (a : Arena) (edges : List (Symbol × Nat)) :
    (a.addPair edges).size = a.size + 2 := by
  simp [addPair]

@[simp] theorem size_record (a : Arena) (rule : Rule) : (a.record rule).size = a.size := rfl

@[simp] theorem states_record (a : Arena) (rule : Rule) : (a.record rule).states = a.states := rfl

theorem states_addPair (a : Arena) (edges : List (Symbol × Nat)) :
    (a.addPair edges).states =
      a.states ++ [{ id := a.size, edges }, { id := a.size + 1, accepting := true }] := by
  simp [addPair, push, size]

theorem modify_eq_ok {a b : Arena} {id : Nat} {change : State → State} :
    a.modify id change = .ok b ↔
      id < a.size ∧ b = { a with states := a.states.modify id change } := by
  unfold modify
  split
  · simp_all [eq_comm]
  · rename_i h
    simp [h]

theorem size_of_modify {a b : Arena} {id : Nat} {change : State → State}
    (h : a.modify id change = .ok b) : b.size = a.size := by
  obtain ⟨_, rfl⟩ := modify_eq_ok.1 h
  simp [size]

theorem size_of_absorb {a b : Arena} {exit : Nat} {targets : List Nat}
    (h : a.absorb exit targets = .ok b) : b.size = a.size :=
  size_of_modify h

/-! ## The rules one step at a time -/

theorem concat_eq_ok {a b : Arena} {left right f : Fragment} :
    a.concat left right = .ok (f, b) ↔
      f = ⟨left.entry, right.exit⟩ ∧ ∃ c, a.absorb left.exit [right.entry] = .ok c ∧
        b = c.record (.concat left.exit right.entry) := by
  rw [concat, Fault.bind_eq_ok]
  constructor
  · rintro ⟨c, hc, h⟩
    obtain ⟨rfl, rfl⟩ := Prod.mk.inj (Except.ok.inj h)
    exact ⟨rfl, c, hc, rfl⟩
  · rintro ⟨rfl, c, hc, rfl⟩
    exact ⟨c, hc, rfl⟩

theorem union_eq_ok {a b : Arena} {left right f : Fragment} :
    a.union left right = .ok (f, b) ↔
      f = ⟨a.size, a.size + 1⟩ ∧ ∃ c d,
        (a.addPair [(.epsilon, left.entry), (.epsilon, right.entry)]).absorb left.exit [a.size + 1] =
          .ok c ∧
        c.absorb right.exit [a.size + 1] = .ok d ∧ b = d.record (.union a.size (a.size + 1)) := by
  rw [union, Fault.bind_eq_ok]
  constructor
  · rintro ⟨c, hc, h⟩
    obtain ⟨d, hd, h⟩ := Fault.bind_eq_ok.1 h
    obtain ⟨rfl, rfl⟩ := Prod.mk.inj (Except.ok.inj h)
    exact ⟨rfl, c, d, hc, hd, rfl⟩
  · rintro ⟨rfl, c, d, hc, hd, rfl⟩
    exact ⟨c, hc, Fault.bind_eq_ok.2 ⟨d, hd, rfl⟩⟩

theorem star_eq_ok {a b : Arena} {inner f : Fragment} :
    a.star inner = .ok (f, b) ↔
      f = ⟨a.size, a.size + 1⟩ ∧ ∃ c,
        (a.addPair [(.epsilon, inner.entry), (.epsilon, a.size + 1)]).absorb inner.exit
          [inner.entry, a.size + 1] = .ok c ∧
        b = c.record (.star a.size (a.size + 1)) := by
  rw [star, Fault.bind_eq_ok]
  constructor
  · rintro ⟨c, hc, h⟩
    obtain ⟨rfl, rfl⟩ := Prod.mk.inj (Except.ok.inj h)
    exact ⟨rfl, c, hc, rfl⟩
  · rintro ⟨rfl, c, hc, rfl⟩
    exact ⟨c, hc, rfl⟩

end Arena

end RegexNfa
