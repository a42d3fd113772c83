import RegexNfa.Span

/-!
# Tokens

An expression is read one character at a time: `|`, `*`, `(` and `)` are operators and brackets, every
other character is a literal.  Tokens carry spans and no text; a stream holds them together with the
text they point into.  Concatenation has a token kind of its own that reading never produces, so a `.`
in the text is a literal like any other.
-/

namespace RegexNfa

inductive TokenKind where
  | union
  | star
  | parenOpen
  | parenClose
  | literal
  /-- written between operands that stand side by side -/
  | concat
deriving DecidableEq, Repr

namespace TokenKind

/-- The kind of a character of the text. -/
def ofChar (c : Char) : TokenKind :=
  if c = '|' then union
  else if c = '*' then star
  else if c = '(' then parenOpen
  else if c = ')' then parenClose
  else literal

def isOperator : TokenKind → Bool
  | union | star | concat => true
  | _ => false

def isParen : TokenKind → Bool
  | parenOpen | parenClose => true
  | _ => false

/-- How tightly an operator binds; brackets and literals do not bind. -/
def precedence : TokenKind → Nat
  | star => 3
  | concat => 2
  | union => 1
  | _ => 0

/-- The written form of everything but literals. -/
def spelling : TokenKind → Option String
  | union => some "|"
  | star => some "*"
  | parenOpen => some "("
  | parenClose => some ")"
  | concat => some "."
  | literal => none

/-- Reading never produces a concatenation. -/
theorem ofChar_ne_concat (c : Char) : ofChar c ≠ concat := by
  unfold ofChar
  repeat' split
  all_goals decide

theorem ofChar_eq_literal {c : Char} :
    ofChar c = literal ↔ c ≠ '|' ∧ c ≠ '*' ∧ c ≠ '(' ∧ c ≠ ')' := by
  unfold ofChar
  repeat' split
  all_goals simp_all

end TokenKind

structure Token where
  kind : TokenKind
  span : Span
deriving DecidableEq

/-- Tokens and the text they point into. -/
structure TokenStream where
  source : List Char
  tokens : List Token
deriving DecidableEq

namespace Token

/-- One token for each character, the first starting at byte `offset`. -/
def scanFrom (offset : Nat) : List Char → List Token
  | [] => []
  | c :: cs => ⟨.ofChar c, .ofChar offset c⟩ :: scanFrom (offset + c.utf8Size) cs

@[simp] theorem length_scanFrom (offset : Nat) (cs : List Char) :
    (scanFrom offset cs).length = cs.length := by
  induction cs generalizing offset with
  | nil => rfl
  | cons c cs ih => simp [scanFrom, ih]

/-- The text a token points at. -/
def text (source : List Char) (t : Token) : Except Fault (List Char) :=
  match t.span.slice source with
  | some cs => .ok cs
  | none => .error (.unalignedSpan t.span.start t.span.stop)

/-- The character a literal stands for: the first one of its text. -/
def literal? (source : List Char) (t : Token) : Except Fault (Option Char) :=
  if t.kind = .literal then List.head? <$> t.text source else .ok none

/-- The written form of a token. -/
def display (source : List Char) (t : Token) : Except Fault (List Char) :=
  match t.kind.spelling with
  | some s => .ok s.toList
  | none => t.text source

end Token

namespace TokenStream

/-- Reads a text into tokens. -/
def ofText (source : List Char) : TokenStream where
  source
  tokens := Token.scanFrom 0 source

/-- The bytes of the whole text. -/
def fullSpan (s : TokenStream) : Span :=
  .upTo (byteLength s.source)

/-- The expression as the tokens spell it, concatenation written as a point. -/
def display (s : TokenStream) : Except Fault (List Char) :=
  List.flatten <$> s.tokens.mapM (Token.display s.source)

end TokenStream

end RegexNfa
