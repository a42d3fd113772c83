import RegexNfa.Arena.Assembly
import RegexNfa.Token.Marking
import RegexNfa.Token.Postfix
import RegexNfa.Summary
import RegexNfa.Listing

/-!
# Compiling an expression

Read, mark concatenations, put into postfix order, assemble, freeze.  Every compilation starts from an
empty arena, so its ids start at zero.
-/

namespace RegexNfa

/-- A compiled expression with its intermediate forms. -/
structure Compilation where
  source : String
  /-- infix, every concatenation marked -/
  explicit : TokenStream
  /-- the same tokens in postfix order -/
  reordered : TokenStream
  automaton : Automaton
  /-- the rules applied, in order, if they were logged -/
  log : List Rule
deriving DecidableEq

/-- Compiles an expression. -/
def compile (source : String) (logging : Bool := false) : Except Failure Compilation :=
  let explicit := (TokenStream.ofText source.toList).marked
  let reordered := explicit.postfixed
  match (Arena.fresh logging).assemble reordered with
  | (.error failure, _) => .error failure
  | (.ok whole, arena) =>
    match arena.finish whole with
    | .error fault => .error (.fault fault)
    | .ok automaton => .ok { source, explicit, reordered, automaton, log := arena.log }

namespace Compilation

def summary (c : Compilation) : Except Fault Summary :=
  Summary.ofAutomaton c.automaton

/-- The two intermediate forms, then the state listing. -/
def dump (p : Palette) (c : Compilation) : Except Fault String := do
  let explicit := String.ofList (← c.explicit.display)
  let reordered := String.ofList (← c.reordered.display)
  return "explicit: " ++ explicit ++ "\npostfix: " ++ reordered ++ "\n\n" ++ c.automaton.listing p

/-- The rules applied, numbered from 1, one a line. -/
def dumpLog (c : Compilation) : String :=
  String.join <| c.log.zipIdx.map fun (rule, i) => s!"{i + 1}. " ++ rule.describe ++ "\n"

end Compilation

end RegexNfa
