import RegexNfa.Run
import RegexNfa.Graph
import RegexNfa.Palette
import RegexNfa.Text.Quoted

/-!
# Narrated runs

A run as lines of text:

    start      {S0, S2, S3, S4}
    'a' @1     {S0, S1, S3, S4}
    'b' @2     {S5}
    accept

A character's line shows the set after its closure, so a move waits for the closure that follows it.
With more verbosity, lines below it show the move and the closure themselves, and with still more the
sets that they started from.
-/

namespace RegexNfa

inductive Verbosity where
  /-- settled sets and the verdict -/
  | settled
  /-- moves and closures too -/
  | steps
  /-- and where they started -/
  | origins
deriving DecidableEq, Repr

/-- How often more verbosity was asked for. -/
def Verbosity.ofCount : Nat → Verbosity
  | 0 => settled
  | 1 => steps
  | _ => origins

/-- A move whose closure has not been observed yet. -/
structure Narrator.Waiting where
  c : Char
  before : StateSet
  after : StateSet
deriving DecidableEq

structure Narrator where
  verbosity : Verbosity := .settled
  palette : Palette := .off
  lines : List String := []
  waiting : Option Narrator.Waiting := none
deriving DecidableEq

namespace Narrator

/-- `text` with spaces after it up to a number of characters. -/
def padTo (width : Nat) (text : String) : String :=
  text ++ String.ofList (List.replicate (width - text.length) ' ')

/-- A set of states in braces, or the mark of the empty set. -/
def showSet (p : Palette) (s : StateSet) : String :=
  if s.isEmpty then p.paint p.red "∅"
  else "\x7b" ++ ", ".intercalate (s.ids.map fun id => p.paint p.blue (Graph.stateName id)) ++ "\x7d"

/-- A set under a label. -/
def mainLine (p : Palette) (label : String) (s : StateSet) : String :=
  padTo 10 label ++ " " ++ showSet p s

/-- The label of a character's line. -/
def charLabel (c : Char) (consumed : Nat) : String :=
  Quoted.char c ++ s!" @{consumed}"

/-- A move or closure below a main line; nothing if it is not asked for. -/
def subLine (v : Verbosity) (p : Palette) (label : String) (source target : StateSet) : List String :=
  let head := "  " ++ p.paint p.dim (padTo 8 label) ++ " "
  match v with
  | .settled => []
  | .steps => [head ++ showSet p target]
  | .origins => [head ++ showSet p source ++ " → " ++ showSet p target]

def verdictLine (p : Palette) (accepted : Bool) : String :=
  if accepted then p.paint p.green "accept" else p.paint p.red "reject"

/-- The lines that an observation adds, `waiting` being the move that waits for its closure. -/
def linesFor (v : Verbosity) (p : Palette) (waiting : Option Waiting) : Observation → List String
  | .closed consumed seed closure =>
    (match waiting with
      | some w => mainLine p (charLabel w.c consumed) closure :: subLine v p "move" w.before w.after
      | none => [mainLine p "start" closure]) ++ subLine v p "ε" seed closure
  | .moved consumed c before after =>
    if after.isEmpty then
      mainLine p (charLabel c consumed) after :: subLine v p "move" before after
    else []
  | .verdict accepted _ => [verdictLine p accepted]

/-- The move that waits after an observation. -/
def waitingAfter (waiting : Option Waiting) : Observation → Option Waiting
  | .closed .. => none
  | .moved _ c before after => if after.isEmpty then waiting else some ⟨c, before, after⟩
  | .verdict .. => waiting

/-- The narration with one more observation. -/
def note (n : Narrator) (o : Observation) : Narrator :=
  { n with
    lines := n.lines ++ linesFor n.verbosity n.palette n.waiting o
    waiting := waitingAfter n.waiting o }

/-- Every line, each ended. -/
def render (n : Narrator) : String :=
  String.join (n.lines.map (· ++ "\n"))

end Narrator

/-- Runs the automaton on each input in turn under one narrator. -/
def Automaton.narrate (a : Automaton) (n : Narrator) :
    List String → Except Fault (List Bool × Narrator)
  | [] => .ok ([], n)
  | input :: rest => do
    let (accepted, n) ← a.run Narrator.note n input
    let (later, n) ← a.narrate n rest
    return (accepted :: later, n)

end RegexNfa
