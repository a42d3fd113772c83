import Mathlib.Data.List.Nodup
import Mathlib.Tactic.Lemma
import RegexNfa.FirstSeen

/-!
# What first-seen order is

`firstSeen` puts the members of a list in the order of the places where they come first (`pairwise_firstSeen`), so of
two members the one that comes first earlier is listed earlier (`idxOf_firstSeen_lt_iff`).

Where a list is made of one piece for each member of another, `FirstWith` says in whose piece a value comes first.  Its
place in the whole is then settled by that member and, among values of one piece, by the place there
(`FirstWith.idxOf_lt_of_earlier`, `FirstWith.idxOf_lt_of_same`).
-/

namespace RegexNfa

variable {α β : Type}

/-! ## The order of first places -/

/-- Members come in the order of their first places. -/
theorem pairwise_firstSeen [DecidableEq α] (xs : List α) :
    (firstSeen xs).Pairwise fun x y => xs.idxOf x < xs.idxOf y := by
  induction xs with
  | nil => exact .nil
  | cons x xs ih =>
    have hlater : ∀ y ∈ (firstSeen xs).filter (· ≠ x), (x :: xs).idxOf y = xs.idxOf y + 1 := by
      intro y hy
      have hne : y ≠ x := of_decide_eq_true (List.mem_filter.1 hy).2
      exact List.idxOf_cons_ne xs hne.symm
    refine List.pairwise_cons.2 ⟨?_, ?_⟩
    · intro y hy
      rw [hlater y hy, List.idxOf_cons_self]
      exact Nat.succ_pos _
    · refine (ih.filter _).imp_of_mem ?_
      intro y z hy hz hlt
      rw [hlater y hy, hlater z hz]
      omega

/-- What comes first earlier is listed earlier, and the other way round. -/
theorem idxOf_firstSeen_lt_iff [DecidableEq α] {xs : List α} {x y : α} (hx : x ∈ xs) (hy : y ∈ xs) :
    (firstSeen xs).idxOf x < (firstSeen xs).idxOf y ↔ xs.idxOf x < xs.idxOf y := by
  have hordered := List.pairwise_iff_getElem.1 (pairwise_firstSeen xs)
  have hx' := List.idxOf_lt_length_of_mem (mem_firstSeen.2 hx)
  have hy' := List.idxOf_lt_length_of_mem (mem_firstSeen.2 hy)
  constructor
  · intro hlt
    have hplaces := hordered _ _ hx' hy' hlt
    rw [List.getElem_idxOf, List.getElem_idxOf] at hplaces
    exact hplaces
  · intro hlt
    rcases Nat.lt_trichotomy ((firstSeen xs).idxOf x) ((firstSeen xs).idxOf y) with hless | hsame | hmore
    · exact hless
    · rw [(List.idxOf_inj (mem_firstSeen.2 hx)).1 hsame] at hlt
      exact absurd hlt (Nat.lt_irrefl _)
    · have hplaces := hordered _ _ hy' hx' hmore
      rw [List.getElem_idxOf, List.getElem_idxOf] at hplaces
      omega

/-- What is appended adds those of its members that have not come before. -/
lemma firstSeen_append [DecidableEq α] (xs ys : List α) :
    firstSeen (xs ++ ys) = firstSeen xs ++ (firstSeen ys).filter (· ∉ firstSeen xs) := by
  induction xs with
  | nil => simp [firstSeen]
  | cons x xs ih =>
    rw [List.cons_append, firstSeen, ih, List.filter_append, List.filter_filter, firstSeen, List.cons_append]
    congr 2
    apply List.filter_congr
    intro y _
    by_cases hy : y = x <;> simp [hy]

/-! ## Lists made piece by piece -/

variable {f : α → List β} {l before : List α} {p p' : α} {x y : β}

/-- `p` is the first member of `l` whose piece has `x`. -/
structure FirstWith [DecidableEq α] (f : α → List β) (l : List α) (p : α) (x : β) : Prop where
  listed : p ∈ l
  has : x ∈ f p
  first : ∀ m ∈ l, x ∈ f m → l.idxOf p ≤ l.idxOf m

/-- A value that some piece has is in the piece of a first member. -/
lemma exists_firstWith [DecidableEq α] (hx : x ∈ l.flatMap f) : ∃ p, FirstWith f l p x := by
  induction l with
  | nil => exact absurd hx List.not_mem_nil
  | cons m l ih =>
    by_cases hm : x ∈ f m
    · refine ⟨m, List.mem_cons_self, hm, ?_⟩
      intro _ _ _
      rw [List.idxOf_cons_self]
      exact Nat.zero_le _
    · rw [List.flatMap_cons, List.mem_append] at hx
      obtain ⟨p, hp⟩ := ih (hx.resolve_left hm)
      refine ⟨p, List.mem_cons_of_mem m hp.listed, hp.has, ?_⟩
      have hlater : ∀ k, x ∈ f k → (m :: l).idxOf k = l.idxOf k + 1 := by
        intro k hk
        refine List.idxOf_cons_ne l ?_
        rintro rfl
        exact hm hk
      intro k hk hxk
      rcases List.mem_cons.1 hk with rfl | hk
      · exact absurd hxk hm
      · rw [hlater p hp.has, hlater k hxk]
        exact Nat.succ_le_succ (hp.first k hk hxk)

/-- A list is cut where a member first stands. -/
lemma exists_cut_idxOf [DecidableEq α] (hp : p ∈ l) :
    ∃ before after, l = before ++ p :: after ∧ ∀ m, m ∈ before ↔ l.idxOf m < l.idxOf p := by
  obtain ⟨before, after, rfl, hfresh⟩ := List.eq_append_cons_of_mem hp
  have hplace : (before ++ p :: after).idxOf p = before.length := by
    rw [List.idxOf_append_of_notMem hfresh, List.idxOf_cons_self, Nat.add_zero]
  refine ⟨before, after, rfl, ?_⟩
  intro m
  rw [hplace]
  constructor
  · intro hm
    rw [List.idxOf_append_of_mem hm]
    exact List.idxOf_lt_length_of_mem hm
  · intro hlt
    by_contra hm
    rw [List.idxOf_append_of_notMem hm] at hlt
    omega

/-- A value that no piece of `before` has comes first behind all of these pieces. -/
lemma idxOf_flatMap_append [DecidableEq β] (hbefore : ∀ m ∈ before, x ∉ f m) (after : List α) :
    ((before ++ after).flatMap f).idxOf x = (before.flatMap f).length + (after.flatMap f).idxOf x := by
  have hnone : x ∉ before.flatMap f := by
    intro hx
    obtain ⟨m, hm, hmem⟩ := List.mem_flatMap.1 hx
    exact hbefore m hm hmem
  rw [List.flatMap_append, List.idxOf_append_of_notMem hnone]

namespace FirstWith

variable [DecidableEq α]

lemma not_mem_of_lt (h : FirstWith f l p x) {m : α} (hlt : l.idxOf m < l.idxOf p) : x ∉ f m := by
  intro hx
  have hmem : m ∈ l := by
    rw [← List.idxOf_lt_length_iff]
    exact Nat.lt_of_lt_of_le hlt List.idxOf_le_length
  have hle := h.first m hmem hx
  omega

variable [DecidableEq β]

/-- Values that come first in one piece come as they do there. -/
lemma idxOf_lt_of_same (hx : FirstWith f l p x) (hy : FirstWith f l p y)
    (hlt : (f p).idxOf x < (f p).idxOf y) : (l.flatMap f).idxOf x < (l.flatMap f).idxOf y := by
  obtain ⟨before, after, hl, hbefore⟩ := exists_cut_idxOf hx.listed
  have hplace : ∀ {z}, FirstWith f l p z →
      (l.flatMap f).idxOf z = (before.flatMap f).length + (f p).idxOf z := by
    intro z hz
    have hnone : ∀ m ∈ before, z ∉ f m := fun m hm => hz.not_mem_of_lt ((hbefore m).1 hm)
    rw [hl, idxOf_flatMap_append hnone, List.flatMap_cons, List.idxOf_append_of_mem hz.has]
  rw [hplace hx, hplace hy]
  omega

/-- Of two values the one comes first whose first piece does. -/
lemma idxOf_lt_of_earlier (hx : FirstWith f l p x) (hy : FirstWith f l p' y)
    (hlt : l.idxOf p < l.idxOf p') : (l.flatMap f).idxOf x < (l.flatMap f).idxOf y := by
  -- cut in front of the later piece: the earlier one is wholly before it
  obtain ⟨before, after, hl, hbefore⟩ := exists_cut_idxOf hy.listed
  have hnone : ∀ m ∈ before, y ∉ f m := fun m hm => hy.not_mem_of_lt ((hbefore m).1 hm)
  have hmem : x ∈ before.flatMap f := List.mem_flatMap.2 ⟨p, (hbefore p).2 hlt, hx.has⟩
  have hfront : (l.flatMap f).idxOf x < (before.flatMap f).length := by
    rw [hl, List.flatMap_append, List.idxOf_append_of_mem hmem]
    exact List.idxOf_lt_length_of_mem hmem
  have hbehind : (before.flatMap f).length ≤ (l.flatMap f).idxOf y := by
    rw [hl, idxOf_flatMap_append hnone]
    exact Nat.le_add_right _ _
  omega

end FirstWith

end RegexNfa
