/-!
# Expressions

What an expression is apart from its spelling: literals under concatenation, union and repetition.

`Expression.Matches` says which texts an expression stands for.  `Expression.regrouped` forgets how a
chain of concatenations was bracketed; by `matches_regrouped` this does not change what is matched.
-/

namespace RegexNfa

inductive Expression where
  | literal (c : Char)
  | concat (left right : Expression)
  | union (left right : Expression)
  | star (inner : Expression)
deriving DecidableEq, Repr

namespace Expression

/-- The texts that an expression stands for. -/
inductive Matches : Expression → List Char → Prop where
  | literal (c : Char) : Matches (literal c) [c]
  | concat {l r : Expression} {s t : List Char} (left : Matches l s) (right : Matches r t) :
      Matches (concat l r) (s ++ t)
  | unionLeft {l r : Expression} {s : List Char} (left : Matches l s) : Matches (union l r) s
  | unionRight {l r : Expression} {s : List Char} (right : Matches r s) : Matches (union l r) s
  | starNil (e : Expression) : Matches (star e) []
  | starAppend {e : Expression} {s t : List Char} (once : Matches e s) (more : Matches (star e) t) :
      Matches (star e) (s ++ t)

@[simp] theorem matches_literal {c : Char} {t : List Char} : (literal c).Matches t ↔ t = [c] := by
  constructor
  · intro h
    cases h
    rfl
  · rintro rfl
    exact .literal c

theorem matches_concat {l r : Expression} {t : List Char} :
    (concat l r).Matches t ↔ ∃ u v, t = u ++ v ∧ l.Matches u ∧ r.Matches v := by
  constructor
  · intro h
    cases h with
    | concat left right => exact ⟨_, _, rfl, left, right⟩
  · rintro ⟨u, v, rfl, left, right⟩
    exact .concat left right

theorem matches_union {l r : Expression} {t : List Char} :
    (union l r).Matches t ↔ l.Matches t ∨ r.Matches t := by
  constructor
  · intro h
    cases h with
    | unionLeft left => exact .inl left
    | unionRight right => exact .inr right
  · rintro (left | right)
    · exact .unionLeft left
    · exact .unionRight right

/-- A repetition matches what can be cut into pieces that are matched. -/
theorem matches_star {e : Expression} {t : List Char} :
    (star e).Matches t ↔ ∃ pieces : List (List Char), t = pieces.flatten ∧ ∀ p ∈ pieces, e.Matches p := by
  constructor
  · intro h
    generalize he : star e = whole at h
    induction h with
    | starNil => exact ⟨[], rfl, by simp⟩
    | @starAppend _ s _ once _ _ ih =>
      obtain ⟨rfl⟩ := he
      obtain ⟨pieces, rfl, hp⟩ := ih rfl
      refine ⟨s :: pieces, by simp, ?_⟩
      intro p hmem
      rcases List.mem_cons.1 hmem with rfl | hmem
      · exact once
      · exact hp p hmem
    | _ => exact absurd he (by simp)
  · rintro ⟨pieces, rfl, hp⟩
    induction pieces with
    | nil => exact .starNil e
    | cons p pieces ih =>
      have hrest := ih fun q hq => hp q (List.mem_cons_of_mem p hq)
      exact .starAppend (hp p List.mem_cons_self) hrest

/-! ## Regrouping concatenations -/

/-- `left` followed by `right`, the factors of `left` put in front one by one. -/
def prepend (left right : Expression) : Expression :=
  match left with
  | concat l r => l.prepend (r.prepend right)
  | e => concat e right

/-- The expression with every chain of concatenations grouped to the right. -/
def regrouped : Expression → Expression
  | literal c => literal c
  | concat l r => l.regrouped.prepend r.regrouped
  | union l r => union l.regrouped r.regrouped
  | star e => star e.regrouped

theorem matches_prepend {l r : Expression} {t : List Char} :
    (l.prepend r).Matches t ↔ (concat l r).Matches t := by
  induction l generalizing r t with
  | concat a b iha ihb =>
    rw [prepend, iha, matches_concat, matches_concat]
    constructor
    · rintro ⟨u, v, rfl, hu, hv⟩
      obtain ⟨v₁, v₂, rfl, hv₁, hv₂⟩ := matches_concat.1 (ihb.1 hv)
      exact ⟨u ++ v₁, v₂, by simp, .concat hu hv₁, hv₂⟩
    · rintro ⟨u, v, rfl, hu, hv⟩
      obtain ⟨u₁, u₂, rfl, hu₁, hu₂⟩ := matches_concat.1 hu
      exact ⟨u₁, u₂ ++ v, by simp, hu₁, ihb.2 (.concat hu₂ hv)⟩
  | literal c => rfl
  | union a b => rfl
  | star e => rfl

/-- Regrouping does not change what is matched. -/
theorem matches_regrouped {e : Expression} {t : List Char} : e.regrouped.Matches t ↔ e.Matches t := by
  induction e generalizing t with
  | literal c => rfl
  | concat l r ihl ihr => simp only [regrouped, matches_prepend, matches_concat, ihl, ihr]
  | union l r ihl ihr => simp only [regrouped, matches_union, ihl, ihr]
  | star e ih => simp only [regrouped, matches_star, ih]

/-- The grouping of three factors is forgotten. -/
theorem regrouped_concat_assoc (a b c : Expression) :
    (concat (concat a b) c).regrouped = (concat a (concat b c)).regrouped := by
  have h : ∀ l m r : Expression, (l.prepend m).prepend r = l.prepend (m.prepend r) := by
    intro l
    induction l with
    | concat x y ihx ihy =>
      intro m r
      rw [prepend, ihx, ihy]
      rfl
    | literal c => exact fun m r => rfl
    | union x y => exact fun m r => rfl
    | star e => exact fun m r => rfl
  exact h _ _ _

end Expression

end RegexNfa
