import RegexNfa.Token.Brackets

/-!
# The sides of an operator

Whether an expression stands next to an operator can be told from the token there: a literal, or a group that has a
literal in it; on the left, a repetition too.  An operator lacks an operand when a side where it needs one has none.
-/

namespace RegexNfa

namespace Token

/-- The tokens at `i` and `j` are partners, and a literal stands between them. -/
def LiteralGroup (ts : List Token) (i j : Nat) : Prop :=
  Partners ts i j ∧ ∃ k t, i < k ∧ k < j ∧ ts[k]? = some t ∧ t.kind = .literal

/-- An expression ends right before position `i`. -/
def OperandBefore (ts : List Token) (i : Nat) : Prop :=
  ∃ j t, i = j + 1 ∧ ts[j]? = some t ∧
    (t.kind = .literal ∨ t.kind = .star ∨ t.kind = .parenClose ∧ ∃ h, LiteralGroup ts h j)

/-- An expression begins right after position `i`. -/
def OperandAfter (ts : List Token) (i : Nat) : Prop :=
  ∃ t, ts[i + 1]? = some t ∧ (t.kind = .literal ∨ t.kind = .parenOpen ∧ ∃ j, LiteralGroup ts (i + 1) j)

/-- The token at position `i` is an operator without an expression on a side where it needs one. -/
def LacksOperand (ts : List Token) (i : Nat) : Prop :=
  ∃ t, ts[i]? = some t ∧ t.kind.isOperator = true ∧
    (¬ OperandBefore ts i ∨ t.kind ≠ .star ∧ ¬ OperandAfter ts i)

end Token

end RegexNfa
