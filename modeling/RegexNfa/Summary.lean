import RegexNfa.Graph

/-!
# Summary figures

Counts of an automaton as its graph shows it, with a coarse size class.
-/

namespace RegexNfa

/-- A size class. -/
inductive Complexity where
  | low
  | medium
  | high
deriving DecidableEq, Repr

namespace Complexity

/-- More than 20 is high, more than 10 medium, anything else low. -/
def ofSize (size : Nat) : Complexity :=
  if 20 < size then high else if 10 < size then medium else low

def name : Complexity → String
  | low => "Low"
  | medium => "Medium"
  | high => "High"

/-- The place of a class in the order of size. -/
def rank : Complexity → Nat
  | low => 0
  | medium => 1
  | high => 2

end Complexity

structure Summary where
  /-- reachable states -/
  states : Nat
  /-- edges of the graph -/
  transitions : Nat
  alphabet : List Char
  complexity : Complexity
deriving DecidableEq, Repr

namespace Summary

/-- The figures of an automaton whose graph is `g`. -/
def ofGraph (a : Automaton) (g : Graph) : Summary where
  states := g.nodes.length
  transitions := g.edges.length
  alphabet := a.alphabet
  complexity := .ofSize (g.nodes.length + g.edges.length)

def ofAutomaton (a : Automaton) : Except Fault Summary :=
  ofGraph a <$> Graph.ofAutomaton a

/-- The alphabet as one text; `None` when only ε edges exist. -/
def alphabetLabel (s : Summary) : String :=
  if s.alphabet.isEmpty then "None" else ", ".intercalate (s.alphabet.map String.singleton)

/-- One figure a line. -/
def render (s : Summary) : String :=
  String.join
    [s!"states: {s.states}\n",
     s!"transitions: {s.transitions}\n",
     s!"alphabet: {s.alphabetLabel}\n",
     s!"complexity: {s.complexity.name}\n"]

end Summary

end RegexNfa
