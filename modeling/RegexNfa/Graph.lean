import RegexNfa.Automaton.Exploration

/-!
# Graphs

A view of an automaton for renderers.  Nodes are the reachable states in breadth-first order.  All
edges between the same two states are one edge of the graph that carries every label, each once, in
first-seen order; the empty symbol and the literal character `ε` have the same label.
-/

namespace RegexNfa

structure Graph.Node where
  id : Nat
  label : String
  start : Bool
  accept : Bool
deriving DecidableEq, Repr

structure Graph.Edge where
  source : Nat
  target : Nat
  /-- the written symbols, each once -/
  labels : List String
deriving DecidableEq, Repr

structure Graph where
  start : Nat
  accept : Nat
  nodes : List Graph.Node
  edges : List Graph.Edge
deriving DecidableEq, Repr

namespace Graph

/-- The labels as one text. -/
def Edge.label (e : Edge) : String :=
  ", ".intercalate e.labels

/-- The name under which a state is shown. -/
def stateName (id : Nat) : String := s!"S{id}"

/-- Where the edges of a state lead, with their labels, one entry for every target of every symbol. -/
def arrows (s : State) : List (Nat × String) :=
  s.groups.flatMap fun (symbol, targets) => targets.map (·, symbol.label)

/-- The edges out of a state, merged by target in the order in which the targets come first. -/
def edgesFrom (s : State) : List Edge :=
  (grouped (arrows s)).map fun (target, labels) =>
    { source := s.id, target, labels := firstSeen labels }

/-- The graph over the states `order`. -/
def ofStates (a : Automaton) (order : List Nat) (states : List State) : Graph where
  start := a.start
  accept := a.accept
  nodes := order.map fun id =>
    { id, label := stateName id, start := id = a.start, accept := id = a.accept }
  edges := states.flatMap edgesFrom

/-- The graph of an automaton. -/
def ofAutomaton (a : Automaton) : Except Fault Graph := do
  let order ← a.reachable
  let states ← order.mapM a.state
  return ofStates a order states

end Graph

end RegexNfa
