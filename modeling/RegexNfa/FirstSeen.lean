/-!
# First-seen order

Lists whose order tells when something was first met.  `firstSeen` keeps the first occurrence of
each member; `grouped` files values under keys, keys in the order in which they were first used and
values in the order in which they came.  Edges of a state, merged edges of a graph and the
newcomers of an exploration are all read off these two functions.
-/

namespace RegexNfa

variable {α κ ν : Type}

/-- Each member once, in the order of first occurrence. -/
def firstSeen [DecidableEq α] : List α → List α
  | [] => []
  | x :: xs => x :: (firstSeen xs).filter (· ≠ x)

/-- The values filed under `k`, in the order in which they came. -/
def filedUnder [DecidableEq κ] (k : κ) (ps : List (κ × ν)) : List ν :=
  (ps.filter (·.1 = k)).map Prod.snd

/-- The values of each key, keys in first-seen order. -/
def grouped [DecidableEq κ] (ps : List (κ × ν)) : List (κ × List ν) :=
  (firstSeen (ps.map Prod.fst)).map fun k => (k, filedUnder k ps)

/-! ## What the two functions keep -/

@[simp] theorem mem_firstSeen [DecidableEq α] {a : α} {xs : List α} :
    a ∈ firstSeen xs ↔ a ∈ xs := by
  induction xs with
  | nil => simp [firstSeen]
  | cons x xs ih =>
    by_cases h : a = x <;> simp [firstSeen, ih, h]

theorem nodup_firstSeen [DecidableEq α] (xs : List α) : (firstSeen xs).Nodup := by
  induction xs with
  | nil => simp [firstSeen]
  | cons x xs ih =>
    exact List.nodup_cons.2 ⟨by simp, List.Pairwise.filter _ ih⟩

@[simp] theorem mem_filedUnder [DecidableEq κ] {k : κ} {v : ν} {ps : List (κ × ν)} :
    v ∈ filedUnder k ps ↔ (k, v) ∈ ps := by
  simp [filedUnder]

/-- The keys of the groups are the keys used, each once. -/
theorem map_fst_grouped [DecidableEq κ] (ps : List (κ × ν)) :
    (grouped ps).map Prod.fst = firstSeen (ps.map Prod.fst) := by
  simp [grouped, Function.comp_def]

theorem mem_grouped [DecidableEq κ] {k : κ} {vs : List ν} {ps : List (κ × ν)} :
    (k, vs) ∈ grouped ps ↔ (∃ v, (k, v) ∈ ps) ∧ vs = filedUnder k ps := by
  simp only [grouped, List.mem_map, mem_firstSeen, Prod.exists, exists_and_right, exists_eq_right,
    Prod.mk.injEq]
  constructor
  · rintro ⟨_, ⟨v, hv⟩, rfl, rfl⟩
    exact ⟨⟨v, hv⟩, rfl⟩
  · rintro ⟨⟨v, hv⟩, rfl⟩
    exact ⟨k, ⟨v, hv⟩, rfl, rfl⟩

/-- Grouping neither loses nor invents a value. -/
theorem mem_flatMap_grouped [DecidableEq κ] {v : ν} {ps : List (κ × ν)} :
    v ∈ (grouped ps).flatMap Prod.snd ↔ ∃ k, (k, v) ∈ ps := by
  simp only [List.mem_flatMap, Prod.exists]
  constructor
  · rintro ⟨k, vs, h, hv⟩
    rw [(mem_grouped.1 h).2] at hv
    exact ⟨k, mem_filedUnder.1 hv⟩
  · rintro ⟨k, h⟩
    exact ⟨k, _, mem_grouped.2 ⟨⟨v, h⟩, rfl⟩, mem_filedUnder.2 h⟩

end RegexNfa
