import RegexNfa.Token

/-!
# Marking concatenations

Standing side by side means concatenation.  Marking writes a token of its own wherever one operand
ends and the next begins, with an empty span at the start of the second.  It looks at neighbours only
and rejects nothing.
-/

namespace RegexNfa

namespace TokenKind

/-- An operand may end here. -/
def endsOperand : TokenKind → Bool
  | literal | parenClose | star => true
  | _ => false

/-- An operand may begin here. -/
def startsOperand : TokenKind → Bool
  | literal | parenOpen => true
  | _ => false

/-- Whether a concatenation belongs between two neighbours. -/
def juxtaposed (left right : TokenKind) : Bool :=
  left.endsOperand && right.startsOperand

end TokenKind

namespace Token

/-- The concatenation in front of a token. -/
def marker (next : Token) : Token :=
  ⟨.concat, .emptyAt next.span.start⟩

/-- What belongs between two neighbours. -/
def between (left right : Token) : List Token :=
  if left.kind.juxtaposed right.kind then [marker right] else []

/-- The tokens with every concatenation marked. -/
def mark : List Token → List Token
  | [] => []
  | [t] => [t]
  | t :: next :: rest => t :: (between t next ++ mark (next :: rest))

@[simp] theorem mark_singleton (t : Token) : mark [t] = [t] := rfl

theorem mark_cons_cons (t next : Token) (rest : List Token) :
    mark (t :: next :: rest) = t :: (between t next ++ mark (next :: rest)) := rfl

end Token

/-- The stream with every concatenation marked. -/
def TokenStream.marked (s : TokenStream) : TokenStream :=
  { s with tokens := Token.mark s.tokens }

end RegexNfa
