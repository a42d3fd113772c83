import RegexNfa.Token

/-!
# Lexemes

Every kind of token but concatenation has a rule that says which texts it matches.  Reading takes the longest match of
any rule and goes on behind it, so that each span begins where the one before it ends.  No rule matches a text of more
than one character, and every character is matched by one: this is why a text can be read character by character.
-/

namespace RegexNfa

/-- The rules of reading. -/
inductive TokenKind.Lexeme : TokenKind → List Char → Prop where
  | union : Lexeme .union ['|']
  | star : Lexeme .star ['*']
  | parenOpen : Lexeme .parenOpen ['(']
  | parenClose : Lexeme .parenClose [')']
  /-- any other character, a newline too -/
  | literal {c : Char} (plain : c ≠ '|' ∧ c ≠ '*' ∧ c ≠ '(' ∧ c ≠ ')') : Lexeme .literal [c]

namespace Token

/-- The rule of the kind matches the beginning of a text up to `rest`, and no rule matches more of it. -/
def LongestMatch (kind : TokenKind) (lexeme rest : List Char) : Prop :=
  kind.Lexeme lexeme ∧
    ∀ (other : TokenKind) (longer : List Char), other.Lexeme longer → longer <+: lexeme ++ rest →
      longer.length ≤ lexeme.length

/-- `Lexed start text ts`: reading the text from byte `start` on, longest match by longest match, gives the tokens. -/
inductive Lexed : Nat → List Char → List Token → Prop where
  | nil (start : Nat) : Lexed start [] []
  | cons {start : Nat} {kind : TokenKind} {lexeme rest : List Char} {ts : List Token}
      (longest : LongestMatch kind lexeme rest) (more : Lexed (start + byteLength lexeme) rest ts) :
      Lexed start (lexeme ++ rest)
        (⟨kind, start, start + byteLength lexeme, Nat.le_add_right start (byteLength lexeme)⟩ :: ts)

end Token

/-- The spans follow one another without a gap, from `start` to `stop`. -/
def Span.Tile (start stop : Nat) : List Span → Prop
  | [] => start = stop
  | s :: rest => s.start = start ∧ Tile s.stop stop rest

namespace TokenKind

/-- Every character is matched by the rule of its kind. -/
theorem lexeme_ofChar (c : Char) : (ofChar c).Lexeme [c] := by
  unfold ofChar
  split
  · subst c
    exact .union
  split
  · subst c
    exact .star
  split
  · subst c
    exact .parenOpen
  split
  · subst c
    exact .parenClose
  · exact .literal ⟨‹_›, ‹_›, ‹_›, ‹_›⟩

/-- A rule matches single characters, those of its kind. -/
theorem Lexeme.eq_ofChar {kind : TokenKind} {lexeme : List Char} (h : kind.Lexeme lexeme) :
    ∃ c, lexeme = [c] ∧ kind = ofChar c := by
  cases h with
  | union => exact ⟨'|', rfl, rfl⟩
  | star => exact ⟨'*', rfl, rfl⟩
  | parenOpen => exact ⟨'(', rfl, rfl⟩
  | parenClose => exact ⟨')', rfl, rfl⟩
  | literal plain => exact ⟨_, rfl, (ofChar_eq_literal.2 plain).symm⟩

end TokenKind

end RegexNfa
