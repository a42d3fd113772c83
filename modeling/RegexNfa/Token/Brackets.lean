import RegexNfa.Token

/-!
# Matching brackets

Which brackets of a list of tokens belong together, whatever stands around and between them.  A stretch
is balanced when its brackets close each other; an opening and a later closing bracket are partners when
what stands between them is balanced.
-/

namespace RegexNfa

namespace Token

/-- The brackets of the stretch close each other. -/
inductive Balanced : List Token → Prop where
  | nil : Balanced []
  | plain {t : Token} {ts : List Token} (notParen : t.kind.isParen = false) (rest : Balanced ts) :
      Balanced (t :: ts)
  | group {opening closing : Token} {inner ts : List Token} (isOpen : opening.kind = .parenOpen)
      (isClose : closing.kind = .parenClose) (within : Balanced inner) (rest : Balanced ts) :
      Balanced (opening :: (inner ++ closing :: ts))

/-- The tokens at positions `i` and `j` are an opening bracket and the bracket that closes it. -/
def Partners (ts : List Token) (i j : Nat) : Prop :=
  ∃ before opening inner closing after,
    ts = before ++ opening :: (inner ++ closing :: after) ∧
    opening.kind = .parenOpen ∧ closing.kind = .parenClose ∧ Balanced inner ∧
    i = before.length ∧ j = before.length + 1 + inner.length

/-- The token at position `i` is a bracket without partner. -/
def Unmatched (ts : List Token) (i : Nat) : Prop :=
  (∃ t, ts[i]? = some t ∧ t.kind.isParen = true) ∧ ∀ j, ¬ Partners ts i j ∧ ¬ Partners ts j i

theorem Balanced.append {ts us : List Token} (left : Balanced ts) (right : Balanced us) :
    Balanced (ts ++ us) := by
  induction left with
  | nil => exact right
  | plain notParen _ ih => exact .plain notParen ih
  | @group opening closing inner ts isOpen isClose within _ _ ih =>
    have h := Balanced.group isOpen isClose within ih
    simpa using h

end Token

end RegexNfa
