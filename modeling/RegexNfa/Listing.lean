import RegexNfa.Graph
import RegexNfa.Palette

/-!
# State listings

An automaton as text, one line a state:

    S2 (start): ε → S0, S3
    S5 (accept): ∅

Groups of edges stand in the order of first use, separated by semicolons.  Characters are written raw.
-/

namespace RegexNfa

namespace Listing

/-- A state's name in its colour. -/
def name (p : Palette) (id : Nat) : String :=
  p.paint p.blue (Graph.stateName id)

/-- The empty symbol is dimmed, characters are not. -/
def symbol (p : Palette) : Symbol → String
  | .epsilon => p.paint p.dim Symbol.epsilon.label
  | .char c => (Symbol.char c).label

/-- One group of edges. -/
def group (p : Palette) : Symbol × List Nat → String
  | (s, targets) => " " ++ symbol p s ++ " → " ++ ", ".intercalate (targets.map (name p))

/-- Which of the designated states this is. -/
def marks (p : Palette) (start : Nat) (s : State) : String :=
  (if s.id = start then " " ++ p.paint p.dim "(start)" else "") ++
    (if s.accepting then " " ++ p.paint p.green "(accept)" else "")

def edges (p : Palette) (s : State) : String :=
  if s.edges.isEmpty then " " ++ p.paint p.dim "∅"
  else ";".intercalate (s.groups.map (group p))

/-- The line of one state. -/
def line (p : Palette) (start : Nat) (s : State) : String :=
  name p s.id ++ marks p start s ++ ":" ++ edges p s

end Listing

/-- The line of every state, in id order. -/
def Automaton.listing (p : Palette) (a : Automaton) : String :=
  String.join (a.states.map fun s => Listing.line p a.start s ++ "\n")

end RegexNfa
