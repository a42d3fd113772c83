import RegexNfa.State

/-!
# Sets of states

A set of state ids, held as its members in ascending order.  The order is part of the type, so two
sets with the same members are equal (`StateSet.ext_mem`) and a set has one written form.
-/

namespace RegexNfa

structure StateSet where
  /-- the members, smallest first -/
  ids : List Nat
  ascending : ids.Pairwise (· < ·) := by simp
deriving DecidableEq

namespace StateSet

instance : Membership Nat StateSet := ⟨fun s id => id ∈ s.ids⟩

instance (id : Nat) (s : StateSet) : Decidable (id ∈ s) :=
  inferInstanceAs (Decidable (id ∈ s.ids))

@[simp] theorem mem_ids {id : Nat} {s : StateSet} : id ∈ s.ids ↔ id ∈ s := Iff.rfl

def empty : StateSet := { ids := [] }

def isEmpty (s : StateSet) : Bool := s.ids.isEmpty

def singleton (id : Nat) : StateSet := { ids := [id] }

/-- An id put in its place in an ascending list; an id already there is not repeated. -/
def place (id : Nat) : List Nat → List Nat
  | [] => [id]
  | x :: xs => if id < x then id :: x :: xs else if id = x then x :: xs else x :: place id xs

theorem mem_place {id t : Nat} {xs : List Nat} :
    t ∈ place id xs ↔ t = id ∨ t ∈ xs := by
  induction xs with
  | nil => simp [place]
  | cons x xs ih =>
    unfold place
    split
    · simp
    · split
      · subst_vars; simp
      · simp only [List.mem_cons, ih]; exact or_left_comm

theorem pairwise_place {id : Nat} {xs : List Nat} (h : xs.Pairwise (· < ·)) :
    (place id xs).Pairwise (· < ·) := by
  induction xs with
  | nil => simp [place]
  | cons x xs ih =>
    rw [List.pairwise_cons] at h
    unfold place
    split
    · rename_i hx
      refine List.pairwise_cons.2 ⟨?_, List.pairwise_cons.2 h⟩
      intro t ht
      rcases List.mem_cons.1 ht with rfl | ht
      · exact hx
      · exact Nat.lt_trans hx (h.1 t ht)
    · split
      · exact List.pairwise_cons.2 h
      · refine List.pairwise_cons.2 ⟨?_, ih h.2⟩
        intro t ht
        rcases mem_place.1 ht with rfl | ht
        · omega
        · exact h.1 t ht

def insert (id : Nat) (s : StateSet) : StateSet where
  ids := place id s.ids
  ascending := pairwise_place s.ascending

/-- The set of the members of a list, whatever their order and number. -/
def ofList (ids : List Nat) : StateSet :=
  ids.foldr insert empty

instance : Union StateSet := ⟨fun s t => ofList (s.ids ++ t.ids)⟩

instance : HasSubset StateSet := ⟨fun s t => ∀ id ∈ s, id ∈ t⟩

@[simp] theorem not_mem_empty (id : Nat) : id ∉ empty := List.not_mem_nil

@[simp] theorem mem_singleton {id t : Nat} : t ∈ singleton id ↔ t = id :=
  List.mem_singleton

@[simp] theorem mem_insert {id t : Nat} {s : StateSet} : t ∈ s.insert id ↔ t = id ∨ t ∈ s :=
  mem_place

@[simp] theorem mem_ofList {t : Nat} {ids : List Nat} : t ∈ ofList ids ↔ t ∈ ids := by
  induction ids with
  | nil => simp [ofList]
  | cons x xs ih =>
    rw [show ofList (x :: xs) = (ofList xs).insert x from rfl, mem_insert, ih, List.mem_cons]

@[simp] theorem mem_union {id : Nat} {s t : StateSet} : id ∈ s ∪ t ↔ id ∈ s ∨ id ∈ t :=
  mem_ofList.trans List.mem_append

theorem nodup_ids (s : StateSet) : s.ids.Nodup :=
  s.ascending.imp Nat.ne_of_lt

theorem isEmpty_iff {s : StateSet} : s.isEmpty = true ↔ ∀ id, id ∉ s := by
  rw [isEmpty, List.isEmpty_iff, List.eq_nil_iff_forall_not_mem]
  rfl

/-- Ascending lists with the same members are the same list. -/
theorem eq_of_ascending {xs ys : List Nat} (hx : xs.Pairwise (· < ·))
    (hy : ys.Pairwise (· < ·)) (h : ∀ t, t ∈ xs ↔ t ∈ ys) : xs = ys := by
  induction xs generalizing ys with
  | nil =>
    cases ys with
    | nil => rfl
    | cons y ys => exact absurd ((h y).2 (by simp)) (by simp)
  | cons x xs ih =>
    cases ys with
    | nil => exact absurd ((h x).1 (by simp)) (by simp)
    | cons y ys =>
      rw [List.pairwise_cons] at hx hy
      have hxy : x = y := by
        rcases List.mem_cons.1 ((h x).1 (by simp)) with rfl | h₁
        · rfl
        · rcases List.mem_cons.1 ((h y).2 (by simp)) with rfl | h₂
          · rfl
          · have := hy.1 x h₁
            have := hx.1 y h₂
            omega
      subst hxy
      congr 1
      refine ih hx.2 hy.2 fun t => ?_
      constructor
      · intro ht
        rcases List.mem_cons.1 ((h t).1 (by simp [ht])) with rfl | ht'
        · exact absurd (hx.1 t ht) (Nat.lt_irrefl t)
        · exact ht'
      · intro ht
        rcases List.mem_cons.1 ((h t).2 (by simp [ht])) with rfl | ht'
        · exact absurd (hy.1 t ht) (Nat.lt_irrefl t)
        · exact ht'

/-- A set is its members. -/
theorem ext_mem {s t : StateSet} (h : ∀ id, id ∈ s ↔ id ∈ t) : s = t := by
  obtain ⟨xs, hx⟩ := s
  obtain ⟨ys, hy⟩ := t
  obtain rfl : xs = ys := eq_of_ascending hx hy h
  rfl

end StateSet

end RegexNfa
