import RegexNfa.Compilation
import RegexNfa.Run.Trace
import RegexNfa.Run.Narration
import RegexNfa.Text.Json

/-!
# Reports

What the commands print: verdict lines, the graph and the trace as JSON, the dump with its figures.
-/

namespace RegexNfa

namespace CommandLine

/-- The verdict on an input, which is quoted. -/
def verdictLine (p : Palette) (input : String) (accepted : Bool) : String :=
  Narrator.verdictLine p accepted ++ "  " ++ Quoted.text input

end CommandLine

def Graph.Node.toJson (n : Graph.Node) : Json :=
  .record [("id", .nat n.id), ("label", .text n.label), ("start", .bool n.start),
    ("accept", .bool n.accept)]

def Graph.Edge.toJson (e : Graph.Edge) : Json :=
  .record [("from", .nat e.source), ("to", .nat e.target), ("labels", .list (e.labels.map .text))]

def Graph.toJson (g : Graph) : Json :=
  .record [("start", .nat g.start), ("accept", .nat g.accept),
    ("nodes", .list (g.nodes.map Node.toJson)), ("edges", .list (g.edges.map Edge.toJson))]

def Summary.toJson (s : Summary) : Json :=
  .record [("states", .nat s.states), ("transitions", .nat s.transitions),
    ("alphabet", .list (s.alphabet.map fun c => .text (String.singleton c))),
    ("complexity", .text s.complexity.name)]

def StateSet.toJson (s : StateSet) : Json :=
  .list (s.ids.map .nat)

def Step.toJson (s : Step) : Json :=
  .record [("kind", .text s.kind), ("symbol", .text s.symbol.label),
    ("previous", s.previous.toJson), ("current", s.current.toJson), ("consumed", .nat s.consumed)]

def Trace.toJson (t : Trace) : Json :=
  .record [("steps", .list (t.steps.map Step.toJson)), ("accepted", .bool t.accepted)]

namespace Compilation

/-- The expression, its graph and the figures. -/
def graphJson (c : Compilation) : Except Fault Json := do
  let graph ← Graph.ofAutomaton c.automaton
  return .record [("expression", .text c.source), ("graph", graph.toJson),
    ("stats", (Summary.ofGraph c.automaton graph).toJson)]

/-- The graph as text. -/
def graphText (compact : Bool) (c : Compilation) : Except Fault String := do
  let json ← c.graphJson
  return if compact then json.compact else json.pretty

/-- The dump under headings, with the rules applied if they are asked for. -/
def dumpReport (p : Palette) (events : Bool) (c : Compilation) : Except Fault String := do
  let dump ← c.dump p
  let summary ← c.summary
  let figures := "\n" ++ p.paint p.dim "stats" ++ "\n" ++ summary.render
  let rules := if events then "\n" ++ p.paint p.dim "events" ++ "\n" ++ c.dumpLog else ""
  return dump ++ figures ++ rules

end Compilation

end RegexNfa
