/-!
# Symbols

The labels of edges.  An edge either consumes nothing or exactly one character.  The literal
character `ε` and the empty symbol are different symbols that are written alike.
-/

namespace RegexNfa

/-- What taking an edge consumes. -/
inductive Symbol where
  | epsilon
  | char (c : Char)
deriving DecidableEq, Repr, Inhabited

namespace Symbol

/-- The written form: the character itself, `ε` for the empty symbol. -/
def label : Symbol → String
  | epsilon => "ε"
  | char c => String.singleton c

def isEpsilon : Symbol → Bool
  | epsilon => true
  | char _ => false

def char? : Symbol → Option Char
  | epsilon => none
  | char c => some c

/-- The empty symbol comes before every character, characters go by code point. -/
def le : Symbol → Symbol → Bool
  | epsilon, _ => true
  | char _, epsilon => false
  | char c, char d => decide (c ≤ d)

/-- Symbols in order, equal ones kept. -/
def sort (symbols : List Symbol) : List Symbol :=
  symbols.mergeSort le

end Symbol

end RegexNfa
