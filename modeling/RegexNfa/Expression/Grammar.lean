import RegexNfa.Expression
import RegexNfa.Token

/-!
# The grammar of expressions

    alternation := sequence    | alternation '|' sequence
    sequence    := repetition  | sequence repetition
    repetition  := atom        | repetition '*'
    atom        := literal     | '(' alternation ')'

A literal is any character other than `|`, `*`, `(` and `)`.  So `*` binds tighter than standing side by
side, which binds tighter than `|`, and both binary operators group to the left.

`Derives` relates a text at some byte to its parse tree, which keeps the byte of every literal and
operator; brackets leave no trace in the tree.
-/

namespace RegexNfa

/-- An expression with the bytes at which its literals and operators stand.  A concatenation stands where
its right operand starts. -/
inductive ParseTree where
  | literal (c : Char) (place : Nat)
  | concat (left right : ParseTree) (place : Nat)
  | union (left right : ParseTree) (place : Nat)
  | star (inner : ParseTree) (place : Nat)
deriving DecidableEq, Repr

namespace ParseTree

/-- What is left when places are forgotten. -/
def expression : ParseTree → Expression
  | literal c _ => .literal c
  | concat l r _ => .concat l.expression r.expression
  | union l r _ => .union l.expression r.expression
  | star e _ => .star e.expression

/-- The tokens of the tree, operands before their operator. -/
def listing : ParseTree → List Token
  | literal c place => [⟨.literal, .ofChar place c⟩]
  | concat l r place => l.listing ++ r.listing ++ [⟨.concat, .emptyAt place⟩]
  | union l r place => l.listing ++ r.listing ++ [⟨.union, .ofChar place '|'⟩]
  | star e place => e.listing ++ [⟨.star, .ofChar place '*'⟩]

end ParseTree

/-- The four kinds of phrase. -/
inductive Phrase where
  | alternation
  | sequence
  | repetition
  | atom
deriving DecidableEq, Repr

/-- `Derives phrase start text tree`: the text, whose first byte is `start`, is such a phrase. -/
inductive Derives : Phrase → Nat → List Char → ParseTree → Prop where
  | literal {start : Nat} {c : Char} (plain : TokenKind.ofChar c = .literal) :
      Derives .atom start [c] (.literal c start)
  | group {start : Nat} {s : List Char} {t : ParseTree} (inner : Derives .alternation (start + 1) s t) :
      Derives .atom start ('(' :: (s ++ [')'])) t
  | atom {start : Nat} {s : List Char} {t : ParseTree} (h : Derives .atom start s t) :
      Derives .repetition start s t
  | star {start : Nat} {s : List Char} {t : ParseTree} (h : Derives .repetition start s t) :
      Derives .repetition start (s ++ ['*']) (.star t (start + byteLength s))
  | repetition {start : Nat} {s : List Char} {t : ParseTree} (h : Derives .repetition start s t) :
      Derives .sequence start s t
  | concat {start : Nat} {s u : List Char} {l r : ParseTree} (left : Derives .sequence start s l)
      (right : Derives .repetition (start + byteLength s) u r) :
      Derives .sequence start (s ++ u) (.concat l r (start + byteLength s))
  | sequence {start : Nat} {s : List Char} {t : ParseTree} (h : Derives .sequence start s t) :
      Derives .alternation start s t
  | union {start : Nat} {s u : List Char} {l r : ParseTree} (left : Derives .alternation start s l)
      (right : Derives .sequence (start + byteLength s + 1) u r) :
      Derives .alternation start (s ++ '|' :: u) (.union l r (start + byteLength s))

/-- `text` spells an expression with this parse tree. -/
def Spells (text : List Char) (tree : ParseTree) : Prop :=
  Derives .alternation 0 text tree

end RegexNfa
