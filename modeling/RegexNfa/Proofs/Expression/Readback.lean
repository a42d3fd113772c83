import RegexNfa.Expression.Layout
import Mathlib.Tactic.Lemma

/-!
# Reading an expression back from its states

Regrouping concatenations changes no state (`layout_regrouped`).  Beyond that nothing is lost: two expressions
whose concatenations are grouped to the right and that have the same states and the same entry are equal
(`eq_of_body_eq`), so states determine an expression up to regrouping (`layout_eq_iff`).

The reading goes from the entry.  An entry two places before the exit belongs to a literal, a union or a
repetition, any other to the first factor of a concatenation, whose block ends right after that entry.  The
edges of an entry tell the three apart and give the entries of the operands.  Where the left operand of a union
ends is seen from its exit, the first state that goes on to the exit of the union (`length_body_le`).
-/

namespace RegexNfa

namespace Expression

variable {e f l r l' r' : Expression} {n : Nat}

/-! ## Regrouping -/

lemma size_prepend : (l.prepend r).size = (concat l r).size := by
  induction l generalizing r with
  | concat a b iha ihb =>
    rw [prepend, iha, size, ihb]
    simp only [size, Nat.add_assoc]
  | literal c => rfl
  | union a b => rfl
  | star e => rfl

lemma size_regrouped : e.regrouped.size = e.size := by
  induction e with
  | literal c => rfl
  | concat l r ihl ihr => rw [regrouped, size_prepend, size, ihl, ihr, size]
  | union l r ihl ihr => rw [regrouped, size, ihl, ihr, size]
  | star e ih => rw [regrouped, size, ih, size]

/-- The exit is the last state, so it depends on the size alone. -/
lemma exit_eq_of_size_eq (h : e.size = f.size) : e.exit n = f.exit n := by
  have he := e.exit_add_one n
  have hf := f.exit_add_one n
  omega

lemma entry_prepend : (l.prepend r).entry n = l.entry n := by
  induction l generalizing r with
  | concat a b iha _ => rw [prepend, iha, entry]
  | literal c => rfl
  | union a b => rfl
  | star e => rfl

lemma entry_regrouped : e.regrouped.entry n = e.entry n := by
  induction e with
  | literal c => rfl
  | concat l r ihl _ => rw [regrouped, entry_prepend, ihl, entry]
  | union l r => rw [regrouped, entry, size_regrouped, size_regrouped, entry]
  | star e => rw [regrouped, entry, size_regrouped, entry]

lemma body_prepend : (l.prepend r).body n = (concat l r).body n := by
  induction l generalizing n r with
  | concat a b iha ihb =>
    rw [prepend, iha, body, ihb, entry_prepend]
    simp only [body, exit, size, Nat.add_assoc, List.append_assoc, List.cons_append]
  | literal c => rfl
  | union a b => rfl
  | star e => rfl

lemma body_regrouped : e.regrouped.body n = e.body n := by
  induction e generalizing n with
  | literal c => rfl
  | concat l r ihl ihr =>
    rw [regrouped, body_prepend]
    simp only [body, ihl, ihr, size_regrouped, entry_regrouped, exit_eq_of_size_eq size_regrouped]
  | union l r ihl ihr =>
    simp only [regrouped, body, ihl, ihr, size_regrouped, entry_regrouped,
      exit_eq_of_size_eq size_regrouped]
  | star e ih =>
    simp only [regrouped, body, ih, size_regrouped, entry_regrouped, exit_eq_of_size_eq size_regrouped]

/-- Regrouping changes no state. -/
theorem layout_regrouped (n : Nat) (onward : List Nat) (e : Expression) :
    e.regrouped.layout n onward = e.layout n onward := by
  rw [layout, layout, body_regrouped, exit_eq_of_size_eq size_regrouped]

/-! ## What regrouping forgets -/

/-- Equal up to the grouping of concatenations. -/
inductive Regroups : Expression → Expression → Prop where
  | refl (e : Expression) : Regroups e e
  | symm {e f : Expression} (h : Regroups e f) : Regroups f e
  | trans {e f g : Expression} (first : Regroups e f) (second : Regroups f g) : Regroups e g
  | assoc (a b c : Expression) : Regroups (concat (concat a b) c) (concat a (concat b c))
  | concat {l r l' r' : Expression} (left : Regroups l l') (right : Regroups r r') :
      Regroups (concat l r) (concat l' r')
  | union {l r l' r' : Expression} (left : Regroups l l') (right : Regroups r r') :
      Regroups (union l r) (union l' r')
  | star {e f : Expression} (inner : Regroups e f) : Regroups (star e) (star f)

lemma regroups_prepend : Regroups (concat l r) (l.prepend r) := by
  induction l generalizing r with
  | concat a b iha ihb => exact (Regroups.assoc a b r).trans ((Regroups.concat (.refl a) ihb).trans iha)
  | literal c => exact .refl _
  | union a b => exact .refl _
  | star e => exact .refl _

lemma regroups_regrouped (e : Expression) : Regroups e e.regrouped := by
  induction e with
  | literal c => exact .refl _
  | concat l r ihl ihr => exact (Regroups.concat ihl ihr).trans regroups_prepend
  | union l r ihl ihr => exact .union ihl ihr
  | star e ih => exact .star ih

/-- Regrouping forgets the grouping of concatenations and nothing else. -/
theorem regrouped_eq_iff_regroups : e.regrouped = f.regrouped ↔ Regroups e f := by
  constructor
  · intro h
    have hleft := regroups_regrouped e
    rw [h] at hleft
    exact hleft.trans (regroups_regrouped f).symm
  · intro h
    induction h with
    | refl e => rfl
    | symm _ ih => exact ih.symm
    | trans _ _ ih₁ ih₂ => exact ih₁.trans ih₂
    | assoc a b c => exact regrouped_concat_assoc a b c
    | concat _ _ ihl ihr => rw [regrouped, ihl, ihr, regrouped]
    | union _ _ ihl ihr => rw [regrouped, ihl, ihr, regrouped]
    | star _ ih => rw [regrouped, ih, regrouped]

/-! ## Grouped expressions -/

/-- Not a concatenation. -/
def IsFactor : Expression → Prop
  | concat _ _ => False
  | _ => True

/-- Every chain of concatenations is grouped to the right. -/
def Grouped : Expression → Prop
  | literal _ => True
  | concat l r => l.IsFactor ∧ l.Grouped ∧ r.Grouped
  | union l r => l.Grouped ∧ r.Grouped
  | star e => e.Grouped

lemma Grouped.prepend (hl : l.Grouped) (hr : r.Grouped) : (l.prepend r).Grouped := by
  induction l generalizing r with
  | concat a b iha ihb => exact iha hl.2.1 (ihb hl.2.2 hr)
  | literal c => exact ⟨trivial, hl, hr⟩
  | union a b => exact ⟨trivial, hl, hr⟩
  | star e => exact ⟨trivial, hl, hr⟩

lemma grouped_regrouped (e : Expression) : e.regrouped.Grouped := by
  induction e with
  | literal c => trivial
  | concat l r ihl ihr => exact ihl.prepend ihr
  | union l r ihl ihr => exact ⟨ihl, ihr⟩
  | star e ih => exact ih

/-! ## Reading back -/

lemma size_eq_of_body_eq (h : e.body n = f.body n) : e.size = f.size := by
  rw [← e.length_body n, ← f.length_body n, h]

/-- The entry of a factor stands right before its exit. -/
lemma IsFactor.entry_add_two (h : e.IsFactor) (n : Nat) : e.entry n + 2 = n + e.size := by
  cases e with
  | concat l r => exact absurd h id
  | literal c => rfl
  | union l r => simp only [entry, size]; omega
  | star e => simp only [entry, size]; omega

lemma entry_concat_add_two_lt (n : Nat) : (concat l r).entry n + 2 < n + (concat l r).size := by
  have hl := l.entry_add_two_le n
  have hr := r.two_le_size
  simp only [entry, size]
  omega

/-- An element that the second piece lacks stands behind it. -/
lemma length_le_of_append_eq {α : Type} {xs ys us vs : List α} {x : α} (h : xs ++ x :: us = ys ++ vs)
    (hx : x ∉ ys) : ys.length ≤ xs.length := by
  rcases List.append_eq_append_iff.1 h with ⟨as, hys, hrest⟩ | ⟨bs, hxs, _⟩
  · cases as with
    | nil =>
      have hsame : ys = xs := by rw [hys, List.append_nil]
      exact Nat.le_of_eq (congrArg List.length hsame)
    | cons y as =>
      refine absurd ?_ hx
      rw [(List.cons.inj hrest).1, hys]
      simp
  · rw [hxs, List.length_append]
    exact Nat.le_add_right _ _

/-- A block holds no state that goes on to a place behind it, so it ends where the first such state stands. -/
lemma length_body_le {id t : Nat} {xs us vs : List State} (h : xs ++ State.goingOn id [t] :: us = e.body n ++ vs)
    (ht : n + e.size ≤ t) : (e.body n).length ≤ xs.length := by
  refine length_le_of_append_eq h ?_
  intro hmem
  have hedge : (Symbol.epsilon, t) ∈ (State.goingOn id [t]).edges := List.mem_singleton_self _
  have hlt := (inner_of_mem_body n e _ hmem).target_lt hedge
  exact absurd hlt (Nat.not_lt.2 ht)

lemma length_body_eq_of_append_eq {id id' t : Nat} {us vs : List State}
    (h : l.body n ++ State.goingOn id [t] :: us = l'.body n ++ State.goingOn id' [t] :: vs)
    (hl : n + l.size ≤ t) (hl' : n + l'.size ≤ t) : (l.body n).length = (l'.body n).length :=
  Nat.le_antisymm (length_body_le h.symm hl) (length_body_le h hl')

/-- Two unions with the same states have operands with the same states. -/
lemma body_union_inj (h : (union l r).body n = (union l' r').body n) :
    l.body n = l'.body n ∧ l.size = l'.size ∧ l.entry n = l'.entry n ∧
      r.body (n + l.size) = r'.body (n + l.size) ∧ r.entry (n + l.size) = r'.entry (n + l.size) := by
  have hsize := size_eq_of_body_eq h
  simp only [size] at hsize
  have htop : n + l.size + r.size = n + l'.size + r'.size := by omega
  simp only [body, htop] at h
  have hlength := length_body_eq_of_append_eq h (by omega) (by omega)
  obtain ⟨hleft, hrest⟩ := List.append_inj h hlength
  have hsizes : l.size = l'.size := by
    rw [← l.length_body n, ← l'.length_body n, hlength]
  obtain ⟨hright, hlast⟩ := List.append_inj' (List.cons.inj hrest).2 rfl
  rw [← hsizes] at hright hlast
  simp only [List.cons.injEq, State.mk.injEq, Prod.mk.injEq, and_true, true_and] at hlast
  exact ⟨hleft, hsizes, hlast.2.1, hright, hlast.2.2⟩

lemma body_star_inj (h : (star e).body n = (star f).body n) :
    e.body n = f.body n ∧ e.entry n = f.entry n := by
  obtain ⟨hinner, hlast⟩ := List.append_inj' h rfl
  simp only [List.cons.injEq, State.mk.injEq, Prod.mk.injEq, and_true, true_and] at hlast
  exact ⟨hinner, hlast.2.2.1⟩

/-- The second edge of a union's entry leads to its right operand, that of a repetition to its exit. -/
lemma body_union_ne_star : (union l r).body n ≠ (star e).body n := by
  intro h
  have hsize := size_eq_of_body_eq h
  have hlast : n + l.size + r.size = n + e.size ∧ l.entry n = e.entry n ∧
      r.entry (n + l.size) = n + e.size + 1 := by
    simpa [body, List.getLast?_cons] using congrArg List.getLast? h
  have hright := r.entry_add_two_le (n + l.size)
  simp only [size] at hsize
  omega

/-- Two expressions made by the same operator. -/
inductive SameHead : Expression → Expression → Prop where
  | literal (c d : Char) : SameHead (literal c) (literal d)
  | concat (l r l' r' : Expression) : SameHead (concat l r) (concat l' r')
  | union (l r l' r' : Expression) : SameHead (union l r) (union l' r')
  | star (e f : Expression) : SameHead (star e) (star f)

lemma IsFactor.of_entry_eq (he : e.IsFactor) (hentry : e.entry n = f.entry n) (hsize : e.size = f.size) :
    f.IsFactor := by
  cases f with
  | concat l r =>
    have hfactor := he.entry_add_two n
    have hconcat := entry_concat_add_two_lt (l := l) (r := r) n
    omega
  | literal c => trivial
  | union l r => trivial
  | star e => trivial

/-- Only a literal takes two states. -/
lemma exists_literal_of_size (h : e.size = 2) : ∃ c, e = literal c := by
  cases e with
  | literal c => exact ⟨c, rfl⟩
  | concat l r =>
    have hl := l.two_le_size
    have hr := r.two_le_size
    simp only [size] at h
    omega
  | union l r =>
    have hl := l.two_le_size
    simp only [size] at h
    omega
  | star e =>
    have he := e.two_le_size
    simp only [size] at h
    omega

/-- A literal is told by its size, a concatenation by its entry, and the other two by an edge. -/
lemma sameHead_of_body_eq (hentry : e.entry n = f.entry n) (hbody : e.body n = f.body n) : SameHead e f := by
  have hsize := size_eq_of_body_eq hbody
  have hfactor : e.IsFactor → f.IsFactor := fun he => he.of_entry_eq hentry hsize
  have hfactor' : f.IsFactor → e.IsFactor := fun hf => hf.of_entry_eq hentry.symm hsize.symm
  cases e with
  | literal c =>
    obtain ⟨d, rfl⟩ := exists_literal_of_size hsize.symm
    exact .literal c d
  | concat l r =>
    cases f with
    | concat l' r' => exact .concat l r l' r'
    | literal c => exact absurd (hfactor' trivial) id
    | union l' r' => exact absurd (hfactor' trivial) id
    | star f => exact absurd (hfactor' trivial) id
  | union l r =>
    cases f with
    | union l' r' => exact .union l r l' r'
    | literal c => exact absurd (exists_literal_of_size hsize) (by simp)
    | concat l' r' => exact absurd (hfactor trivial) id
    | star f => exact absurd hbody body_union_ne_star
  | star e =>
    cases f with
    | star f => exact .star e f
    | literal c => exact absurd (exists_literal_of_size hsize) (by simp)
    | concat l' r' => exact absurd (hfactor trivial) id
    | union l' r' => exact absurd hbody.symm body_union_ne_star

/-- Two concatenations with the same entry and the same states have factors with the same states. -/
lemma body_concat_inj (hl : l.IsFactor) (hl' : l'.IsFactor) (hentry : l.entry n = l'.entry n)
    (h : (concat l r).body n = (concat l' r').body n) :
    l.body n = l'.body n ∧ r.body (n + l.size) = r'.body (n + l.size) ∧
      r.entry (n + l.size) = r'.entry (n + l.size) := by
  have hsizes : l.size = l'.size := by
    have hfirst := hl.entry_add_two n
    have hfirst' := hl'.entry_add_two n
    omega
  have hlength : (l.body n).length = (l'.body n).length := by
    have hbody := l.length_body n
    have hbody' := l'.length_body n
    omega
  obtain ⟨hleft, hrest⟩ := List.append_inj h hlength
  obtain ⟨hexit, hright⟩ := List.cons.inj hrest
  rw [← hsizes] at hright hexit
  have hedges := congrArg State.edges hexit
  simp only [State.goingOn, List.map_cons, List.map_nil, List.cons.injEq, Prod.mk.injEq, true_and, and_true]
    at hedges
  exact ⟨hleft, hright, hedges⟩

/-- Grouped expressions with the same entry and the same states are the same. -/
theorem eq_of_body_eq (he : e.Grouped) (hf : f.Grouped) (hentry : e.entry n = f.entry n)
    (hbody : e.body n = f.body n) : e = f := by
  induction e generalizing f n with
  | literal c =>
    cases sameHead_of_body_eq hentry hbody with
    | literal _ d =>
      simp only [body, List.cons.injEq, State.mk.injEq, Prod.mk.injEq, Symbol.char.injEq, and_true, true_and]
        at hbody
      rw [hbody]
  | concat l r ihl ihr =>
    cases sameHead_of_body_eq hentry hbody with
    | concat _ _ l' r' =>
      obtain ⟨hleft, hright, hentry'⟩ := body_concat_inj he.1 hf.1 hentry hbody
      rw [ihl he.2.1 hf.2.1 hentry hleft, ihr he.2.2 hf.2.2 hentry' hright]
  | union l r ihl ihr =>
    cases sameHead_of_body_eq hentry hbody with
    | union _ _ l' r' =>
      obtain ⟨hleft, _, hentry, hright, hentry'⟩ := body_union_inj hbody
      rw [ihl he.1 hf.1 hentry hleft, ihr he.2 hf.2 hentry' hright]
  | star e ih =>
    cases sameHead_of_body_eq hentry hbody with
    | star _ f =>
      obtain ⟨hinner, hentry⟩ := body_star_inj hbody
      rw [ih (f := f) he hf hentry hinner]

/-- Expressions have the same states and the same entry exactly if regrouping makes them the same. -/
theorem layout_eq_iff (n : Nat) (onward : List Nat) (e f : Expression) :
    (e.layout n onward = f.layout n onward ∧ e.entry n = f.entry n) ↔ e.regrouped = f.regrouped := by
  constructor
  · intro h
    obtain ⟨hbody, _⟩ := List.append_inj' h.1 rfl
    refine eq_of_body_eq (n := n) (grouped_regrouped e) (grouped_regrouped f) ?_ ?_
    · rw [entry_regrouped, entry_regrouped, h.2]
    · rw [body_regrouped, body_regrouped, hbody]
  · intro h
    refine ⟨?_, ?_⟩
    · rw [← layout_regrouped, h, layout_regrouped]
    · rw [← entry_regrouped, h, entry_regrouped]

end Expression

end RegexNfa
