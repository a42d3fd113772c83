import RegexNfa.Arena
import RegexNfa.Expression

/-!
# Arenas grown by the four rules

A fragment is live from the rule that makes it to the rule that takes it over.  `Grown live a` says that
`a` came from an arena without states by applying the rules to live fragments, each used once and in
whatever order, and that the fragments of `live` are those not taken over yet, each with the expression
that it was built for.  By `Grown.numbered` every state of such an arena has its position as its id.
-/

namespace RegexNfa

/-- A fragment and the expression that it was built for. -/
structure LiveFragment where
  fragment : Fragment
  expression : Expression
deriving DecidableEq, Repr

namespace Arena

inductive Grown : List LiveFragment → Arena → Prop where
  | fresh (logging : Bool) : Grown [] (.fresh logging)
  | char {live : List LiveFragment} {a : Arena} (h : Grown live a) (c : Char) :
      Grown (⟨(a.char c).1, .literal c⟩ :: live) (a.char c).2
  | concat {live : List LiveFragment} {a b : Arena} {l r : LiveFragment} {f : Fragment}
      (h : Grown (l :: r :: live) a) (made : a.concat l.fragment r.fragment = .ok (f, b)) :
      Grown (⟨f, .concat l.expression r.expression⟩ :: live) b
  | union {live : List LiveFragment} {a b : Arena} {l r : LiveFragment} {f : Fragment}
      (h : Grown (l :: r :: live) a) (made : a.union l.fragment r.fragment = .ok (f, b)) :
      Grown (⟨f, .union l.expression r.expression⟩ :: live) b
  | star {live : List LiveFragment} {a b : Arena} {e : LiveFragment} {f : Fragment}
      (h : Grown (e :: live) a) (made : a.star e.fragment = .ok (f, b)) :
      Grown (⟨f, .star e.expression⟩ :: live) b
  /-- which live fragments are used next is free -/
  | reorder {live live' : List LiveFragment} {a : Arena} (h : Grown live a) (perm : live.Perm live') :
      Grown live' a

/-- Every state's id is its position. -/
def Numbered (a : Arena) : Prop :=
  a.states.map State.id = List.range a.size

theorem numbered_fresh (logging : Bool) : (fresh logging).Numbered := rfl

theorem Numbered.addPair {a : Arena} (h : a.Numbered) (edges : List (Symbol × Nat)) :
    (a.addPair edges).Numbered := by
  have hsize : (a.addPair edges).size = a.size + 1 + 1 := size_addPair a edges
  rw [Numbered, hsize, List.range_succ, List.range_succ, states_addPair, List.map_append, h]
  simp

theorem Numbered.absorb {a b : Arena} (h : a.Numbered) {exit : Nat} {targets : List Nat}
    (made : a.absorb exit targets = .ok b) : b.Numbered := by
  have hsize : b.size = a.size := size_of_absorb made
  obtain ⟨_, rfl⟩ := modify_eq_ok.1 made
  rw [Numbered, hsize, ← h]
  apply List.ext_getElem
  · simp
  · intro n hn _
    by_cases hexit : exit = n
    · simp [hexit, State.takenOver]
    · simp [hexit]

theorem Grown.numbered {live : List LiveFragment} {a : Arena} (h : Grown live a) : a.Numbered := by
  induction h with
  | fresh logging => exact numbered_fresh logging
  | char _ c ih => exact ih.addPair _
  | concat _ made ih =>
    obtain ⟨_, c, hc, rfl⟩ := concat_eq_ok.1 made
    have hall : c.Numbered := ih.absorb hc
    exact hall
  | union _ made ih =>
    obtain ⟨_, c, d, hc, hd, rfl⟩ := union_eq_ok.1 made
    have hleft : c.Numbered := (ih.addPair _).absorb hc
    have hall : d.Numbered := hleft.absorb hd
    exact hall
  | star _ made ih =>
    obtain ⟨_, c, hc, rfl⟩ := star_eq_ok.1 made
    have hall : c.Numbered := (ih.addPair _).absorb hc
    exact hall
  | reorder _ _ ih => exact ih

end Arena

end RegexNfa
