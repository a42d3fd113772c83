import RegexNfa.CommandLine.Plan
import RegexNfa.CommandLine.Report
import RegexNfa.Excerpt

/-!
# The program

The whole run as a plan: argument words in, exit status and output out.  A command loads its expression,
compiles it and prints its report; what goes wrong before is printed to standard error.  The exit status
is 0 for success and acceptance, 1 for rejection and for errors, 2 for words that are no command.
-/

namespace RegexNfa

namespace CommandLine

structure Outcome where
  exit : Nat
  stdout : String := ""
  stderr : String := ""
deriving DecidableEq, Repr

namespace Outcome

def failure (message : String) : Outcome :=
  { exit := 1, stderr := "error: " ++ message ++ "\n" }

/-- A broken precondition ends the run. -/
def crash (f : Fault) : Outcome :=
  { exit := 101, stderr := "fault: " ++ f.message ++ "\n" }

/-- Output of a run whose verdict is `accepted`. -/
def verdict (accepted : Bool) (stdout : String) : Outcome :=
  { exit := if accepted then 0 else 1, stdout }

/-- Success with some output, unless making it met a fault. -/
def success (stdout : Except Fault String) : Outcome :=
  match stdout with
  | .ok stdout => { exit := 0, stdout }
  | .error f => crash f

end Outcome

/-- The expression that was asked for. -/
def load (e : ExpressionInput) : Plan (Except LoadError ExpressionSource) :=
  match e.text, e.file with
  | some _, some _ => return .error .conflict
  | some text, none => return .ok { text }
  | none, some path =>
    if path = "-" then
      .readStdin fun bytes => return (ExpressionSource.ofBytes "<stdin>" bytes).mapError .stdin
    else
      .readFile path fun bytes => return (ExpressionSource.ofBytes path bytes).mapError (.file path)
  | none, none => return .error .missing

/-- The compiled expression, or how the run ends without it. -/
def compileOr (source : ExpressionSource) (logging colored : Bool) :
    Except Outcome Compilation :=
  match compile source.text logging with
  | .ok c => .ok c
  | .error (.invalid e) =>
    .error { exit := 1, stderr := e.render (some source.text) source.path colored }
  | .error (.fault f) => .error (.crash f)

/-- Loads and compiles the expression, then goes on. -/
def withCompilation (e : ExpressionInput) (logging colored : Bool)
    (next : Compilation → Plan Outcome) : Plan Outcome := do
  match ← load e with
  | .error err => return .failure err.message
  | .ok source =>
    match compileOr source logging colored with
    | .error outcome => return outcome
    | .ok c => next c

/-- The inputs to run on. -/
def resolve : InputSource → Plan (Except InputsError (List String))
  | .given inputs => return .ok inputs
  | .lines => .readStdin fun bytes => return inputsOfBytes bytes

/-- A verdict line for each input, in order. -/
def execReport (p : Palette) (a : Automaton) (inputs : List String) : Outcome :=
  match inputs.mapM a.accepts with
  | .error f => .crash f
  | .ok verdicts =>
    .verdict (verdicts.all id) <| String.join <|
      (inputs.zip verdicts).map fun (input, accepted) => verdictLine p input accepted ++ "\n"

def exec (e : ExpressionInput) (colored : Bool) (inputs : List String) : Plan Outcome :=
  match InputSource.choose e inputs with
  | .error err => return .failure err.message
  | .ok source =>
    withCompilation e false colored fun c => do
      match ← resolve source with
      | .error err => return .failure err.message
      | .ok inputs => return execReport (.ofBool colored) c.automaton inputs

def traceReport (colored json : Bool) (v : Verbosity) (a : Automaton) (input : String) : Outcome :=
  if json then
    match a.trace input with
    | .error f => .crash f
    | .ok t => .verdict t.accepted (t.toJson.pretty ++ "\n")
  else
    match a.run Narrator.note { verbosity := v, palette := .ofBool colored } input with
    | .error f => .crash f
    | .ok (accepted, n) => .verdict accepted n.render

namespace Invocation

/-- Does what an invocation asks for, in colour or without. -/
def carryOut (colored : Bool) (i : Invocation) : Plan Outcome :=
  match i.action with
  | .check => withCompilation i.expression false colored fun _ => return { exit := 0 }
  | .dump events =>
    withCompilation i.expression events colored fun c =>
      return .success (c.dumpReport (.ofBool colored) events)
  | .graph compact =>
    withCompilation i.expression false colored fun c =>
      return .success ((· ++ "\n") <$> c.graphText compact)
  | .exec inputs => exec i.expression colored inputs
  | .trace verbose input json =>
    withCompilation i.expression false colored fun c =>
      return traceReport colored json (.ofCount verbose) c.automaton (input.getD "")

/-- Does what an invocation asks for. -/
def perform (i : Invocation) : Plan Outcome :=
  .askTerminals fun terminals => i.carryOut (i.color.colored terminals)

end Invocation

/-- How a run ends whose words are no command.  The help or the complaint that is shown then is left out: its
text is a matter of the reader. -/
def Refusal.outcome (refusal : Refusal) : Outcome :=
  { exit := if refusal = .help then 0 else 2 }

/-- The whole program, with whatever reads the words for it. -/
def program (words : List String) (read : Reader := readWords) : Plan Outcome :=
  match Invocation.ofWords words read with
  | .error refusal => return refusal.outcome
  | .ok invocation => invocation.perform

end CommandLine

end RegexNfa
