import RegexNfa.Arena
import RegexNfa.InvalidExpression

/-!
# Assembling a postfix stream

The tokens of a postfix stream are rules in the order of application.  Fragments wait on a stack; a
literal adds one, an operator takes its operands from the top and puts the result back.  A stream in
which an operator finds too few, in which a bracket is left, or which does not end with exactly one
fragment is refused.  The states made up to that point stay in the arena.
-/

namespace RegexNfa

namespace Arena

/-- The outcome of a stretch of building, with the arena as it is then. -/
abbrev Built (α : Type) : Type := Except Failure α × Arena

/-- Refuses at a token. -/
def refuse (a : Arena) (cause : InvalidExpression.Cause) (span : Span) : Built α :=
  (.error (.invalid ⟨cause, span⟩), a)

/-- Goes on with the fragment and the arena that a rule gave. -/
def proceed (a : Arena) (made : Except Fault (Fragment × Arena))
    (next : Fragment → Arena → Built α) : Built α :=
  match made with
  | .ok (f, b) => next f b
  | .error fault => (.error (.fault fault), a)

/-- What is left on the stack at the end must be one fragment. -/
def conclude (a : Arena) (whole : Span) : List Fragment → Built Fragment
  | [f] => (.ok f, a)
  | [] => a.refuse .empty whole
  | rest => a.refuse (.unconnected rest.length) whole

/-- Assembles the remaining tokens, the top of the stack first in `stack`. -/
def assembleFrom (source : List Char) (whole : Span) (a : Arena) (stack : List Fragment) :
    List Token → Built Fragment
  | [] => a.conclude whole stack
  | t :: rest =>
    match t.kind, stack with
    | .literal, stack =>
      match t.literal? source with
      | .ok (some c) =>
        let (f, b) := a.char c
        assembleFrom source whole b (f :: stack) rest
      | .ok none => (.error (.fault .emptyLiteral), a)
      | .error fault => (.error (.fault fault), a)
    | .star, inner :: stack =>
      a.proceed (a.star inner) fun f b => assembleFrom source whole b (f :: stack) rest
    | .concat, right :: left :: stack =>
      a.proceed (a.concat left right) fun f b => assembleFrom source whole b (f :: stack) rest
    | .union, right :: left :: stack =>
      a.proceed (a.union left right) fun f b => assembleFrom source whole b (f :: stack) rest
    | .parenOpen, _ => a.refuse .unclosedParen t.span
    | .parenClose, _ => a.refuse .unmatchedParen t.span
    | operator, _ => a.refuse (.missingOperand operator) t.span

/-- Reduces a postfix stream to one fragment. -/
def assemble (a : Arena) (s : TokenStream) : Built Fragment :=
  a.assembleFrom s.source s.fullSpan [] s.tokens

end Arena

end RegexNfa
