import RegexNfa.Token

/-!
# Well-formed postfix words

The kinds of tokens, in the order of a complete postfix expression:

    word := literal | word word concat | word word union | word star

A word leaves one operand more on a stack than it found, and never takes one that it did not leave
there itself (`PostfixWord.depth`).
-/

namespace RegexNfa

inductive PostfixWord : List TokenKind → Prop where
  | literal : PostfixWord [.literal]
  | concat {s t : List TokenKind} (left : PostfixWord s) (right : PostfixWord t) :
      PostfixWord (s ++ t ++ [.concat])
  | union {s t : List TokenKind} (left : PostfixWord s) (right : PostfixWord t) :
      PostfixWord (s ++ t ++ [.union])
  | star {s : List TokenKind} (inner : PostfixWord s) : PostfixWord (s ++ [.star])

namespace TokenKind

/-- How many operands wait after a token if `n` waited before it; none if it is a bracket or there are
too few. -/
def depth? (n : Nat) : TokenKind → Option Nat
  | literal => some (n + 1)
  | star => if 1 ≤ n then some n else none
  | concat | union => if 2 ≤ n then some (n - 1) else none
  | parenOpen | parenClose => none

/-- How many operands wait after a list of tokens. -/
def depthAfter? (n : Nat) (kinds : List TokenKind) : Option Nat :=
  kinds.foldlM depth? n

theorem depthAfter?_append (n : Nat) (s t : List TokenKind) :
    depthAfter? n (s ++ t) = (depthAfter? n s).bind fun m => depthAfter? m t := by
  simp only [depthAfter?, List.foldlM_append]
  rfl

end TokenKind

open TokenKind in
/-- A word adds one operand to those that wait, however many do. -/
theorem PostfixWord.depth {w : List TokenKind} (h : PostfixWord w) (n : Nat) :
    depthAfter? n w = some (n + 1) := by
  induction h generalizing n with
  | literal => rfl
  | concat _ _ ihs iht =>
    rw [depthAfter?_append, depthAfter?_append, ihs, Option.bind_some, iht, Option.bind_some]
    simp [depthAfter?, depth?]
  | union _ _ ihs iht =>
    rw [depthAfter?_append, depthAfter?_append, ihs, Option.bind_some, iht, Option.bind_some]
    simp [depthAfter?, depth?]
  | star _ ih =>
    rw [depthAfter?_append, ih, Option.bind_some]
    simp [depthAfter?, depth?]

end RegexNfa
