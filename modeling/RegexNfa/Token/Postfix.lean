import RegexNfa.Token

/-!
# Postfix order

Operators are put after their operands by way of a stack of waiting tokens, its top first in the list.
An incoming operator sends out those waiting that bind at least as tightly, back to the nearest open
bracket; so operators of one strength group to the left.

Nothing is rejected and nothing but matched brackets is dropped: a `)` without partner is sent out where
it stands, a `(` without partner when the waiting tokens are sent out at the end.
-/

namespace RegexNfa

namespace Token

/-- Whether the waiting `top` goes out before an incoming operator of the given strength. -/
def yieldsTo (precedence : Nat) (top : Token) : Bool :=
  top.kind ≠ .parenOpen && precedence ≤ top.kind.precedence

/-- What is sent out for the remaining tokens while `waiting` waits. -/
def postfixFrom (waiting : List Token) : List Token → List Token
  | [] => waiting
  | t :: rest =>
    match t.kind with
    | .literal => t :: postfixFrom waiting rest
    | .parenOpen => postfixFrom (t :: waiting) rest
    | .parenClose =>
      match waiting.span (·.kind ≠ .parenOpen) with
      | (inner, _ :: outer) => inner ++ postfixFrom outer rest
      | (inner, []) => inner ++ t :: postfixFrom [] rest
    | .union | .star | .concat =>
      match waiting.span (yieldsTo t.kind.precedence) with
      | (tighter, looser) => tighter ++ postfixFrom (t :: looser) rest

end Token

/-- The stream in postfix order. -/
def TokenStream.postfixed (s : TokenStream) : TokenStream :=
  { s with tokens := Token.postfixFrom [] s.tokens }

end RegexNfa
