import RegexNfa.Token

/-!
# Invalid expressions

Why a text is not an expression, and where.  An expression that fails names the first token at which no
continuation could have helped; if there is none, the whole text is to blame.
-/

namespace RegexNfa

/-- Why a text is not an expression. -/
inductive InvalidExpression.Cause where
  /-- no operand at all -/
  | empty
  /-- an operator found fewer fragments than it takes -/
  | missingOperand (operator : TokenKind)
  | unclosedParen
  | unmatchedParen
  /-- `count` fragments were left that nothing joins -/
  | unconnected (count : Nat)
deriving DecidableEq, Repr

structure InvalidExpression where
  cause : InvalidExpression.Cause
  span : Span
deriving DecidableEq

namespace InvalidExpression

def Cause.message : Cause → String
  | empty => "expression is empty"
  | missingOperand .star => "`*` has nothing to repeat"
  | missingOperand .union => "`|` needs an expression on both sides"
  | missingOperand _ => "concatenation is missing an operand"
  | unclosedParen => "unclosed `(`"
  | unmatchedParen => "unmatched `)`"
  | unconnected count => s!"expression leaves {count} disconnected parts"

def title : String := "invalid expression"

def message (e : InvalidExpression) : String :=
  title ++ ": " ++ e.cause.message

end InvalidExpression

/-- How making an automaton can end without one. -/
inductive Failure where
  | invalid (e : InvalidExpression)
  | fault (f : Fault)
deriving DecidableEq

end RegexNfa
