import RegexNfa.Arena
import RegexNfa.Path
import Mathlib.Tactic.Lemma
import Mathlib.Tactic.Tauto

/-!
# What a rule does to edges and flags

A rule adds a pair of states and takes over exits.  `edge_addPair` and `edge_absorb` say which edges that
makes, `accepting_addPair` and `accepting_absorb` which states accept afterwards; the laws of the four
rules follow from these, and no later proof opens a rule.  Each law is an equivalence, so it also says that
nothing else changes.
-/

namespace RegexNfa

/-- State `id` is in the list and accepts. -/
def Accepting (states : List State) (id : Nat) : Prop :=
  ∃ s, states[id]? = some s ∧ s.accepting = true

namespace Arena

variable {a b : Arena} {p q id : Nat} {symbol : Symbol} {f left right inner : Fragment}

/-! ## Adding a pair, taking over an exit -/

lemma getElem?_addPair (edges : List (Symbol × Nat)) (p : Nat) :
    (a.addPair edges).states[p]? =
      if p < a.size then a.states[p]?
      else if p = a.size then some { id := a.size, edges }
      else if p = a.size + 1 then some { id := a.size + 1, accepting := true }
      else none := by
  rw [states_addPair]
  by_cases hold : p < a.size
  · rw [if_pos hold, List.getElem?_append_left hold]
  · rw [if_neg hold, List.getElem?_append_right (Nat.le_of_not_lt hold)]
    show [_, _][p - a.size]? = _
    by_cases hentry : p = a.size
    · rw [if_pos hentry, hentry, Nat.sub_self]
      rfl
    · rw [if_neg hentry]
      by_cases hexit : p = a.size + 1
      · rw [if_pos hexit, hexit, Nat.add_sub_cancel_left]
        rfl
      · rw [if_neg hexit, List.getElem?_eq_none]
        simp only [List.length_cons, List.length_nil]
        omega

lemma edge_addPair (edges : List (Symbol × Nat)) :
    Edge (a.addPair edges).states p symbol q ↔
      Edge a.states p symbol q ∨ p = a.size ∧ (symbol, q) ∈ edges := by
  unfold Edge
  rw [getElem?_addPair]
  by_cases hold : p < a.size
  · simp [hold, Nat.ne_of_lt hold]
  · have hnone : a.states[p]? = none := List.getElem?_eq_none (Nat.le_of_not_lt hold)
    by_cases hentry : p = a.size
    · subst hentry
      simp [hnone]
    · by_cases hexit : p = a.size + 1
      · simp [hexit, show a.states[a.size + 1]? = none from hexit ▸ hnone]
      · simp [hold, hentry, hexit, hnone]

lemma accepting_addPair (edges : List (Symbol × Nat)) :
    Accepting (a.addPair edges).states id ↔ Accepting a.states id ∨ id = a.size + 1 := by
  unfold Accepting
  rw [getElem?_addPair]
  by_cases hold : id < a.size
  · have hne : id ≠ a.size + 1 := by omega
    simp [hold, hne]
  · have hnone : a.states[id]? = none := List.getElem?_eq_none (Nat.le_of_not_lt hold)
    by_cases hentry : id = a.size
    · subst hentry
      simp [hnone]
    · by_cases hexit : id = a.size + 1
      · rw [if_neg hold, if_neg hentry, if_pos hexit]
        simp [hexit]
      · simp [hold, hentry, hexit, hnone]

lemma getElem?_absorb {exit : Nat} {targets : List Nat} (made : a.absorb exit targets = .ok b) (p : Nat) :
    b.states[p]? = if p = exit then (a.states[p]?).map (State.takenOver targets) else a.states[p]? := by
  obtain ⟨_, rfl⟩ := modify_eq_ok.1 made
  show (a.states.modify exit _)[p]? = _
  rw [List.getElem?_modify]
  by_cases hp : p = exit
  · simp [hp]
  · simp [hp, Ne.symm hp]

lemma lt_of_absorb {exit : Nat} {targets : List Nat} (made : a.absorb exit targets = .ok b) :
    exit < a.size :=
  (modify_eq_ok.1 made).1

/-- An exit in the arena can be taken over. -/
lemma exists_absorb {exit : Nat} (targets : List Nat) (h : exit < a.size) :
    ∃ b, a.absorb exit targets = .ok b :=
  ⟨_, modify_eq_ok.2 ⟨h, rfl⟩⟩

lemma edge_absorb {exit : Nat} {targets : List Nat} (made : a.absorb exit targets = .ok b) :
    Edge b.states p symbol q ↔
      Edge a.states p symbol q ∨ p = exit ∧ symbol = .epsilon ∧ q ∈ targets := by
  unfold Edge
  rw [getElem?_absorb made]
  by_cases hp : p = exit
  · subst hp
    obtain ⟨s, hs⟩ : ∃ s, a.states[p]? = some s :=
      ⟨_, List.getElem?_eq_getElem (lt_of_absorb made)⟩
    have hmem : (symbol, q) ∈ targets.map (Symbol.epsilon, ·) ↔ symbol = .epsilon ∧ q ∈ targets := by
      rw [List.mem_map]
      constructor
      · intro h
        obtain ⟨t, ht, heq⟩ := h
        obtain ⟨rfl, rfl⟩ := Prod.mk.inj heq
        exact ⟨rfl, ht⟩
      · intro h
        exact ⟨q, h.2, by rw [h.1]⟩
    rw [if_pos rfl, hs]
    simp only [State.takenOver, Option.map_some, Option.some.injEq, exists_eq_left', List.mem_append,
      hmem, true_and]
  · simp [hp]

lemma accepting_absorb {exit : Nat} {targets : List Nat} (made : a.absorb exit targets = .ok b) :
    Accepting b.states id ↔ Accepting a.states id ∧ id ≠ exit := by
  unfold Accepting
  rw [getElem?_absorb made]
  by_cases hid : id = exit
  · rw [if_pos hid]
    simp [hid, State.takenOver]
  · simp [hid]

/-! ## The four rules -/

lemma edge_char (c : Char) :
    Edge (a.char c).2.states p symbol q ↔
      Edge a.states p symbol q ∨ p = a.size ∧ symbol = .char c ∧ q = a.size + 1 := by
  show Edge (a.addPair [(.char c, a.size + 1)]).states p symbol q ↔ _
  rw [edge_addPair, List.mem_singleton, Prod.mk.injEq]

lemma edge_concat (made : a.concat left right = .ok (f, b)) :
    Edge b.states p symbol q ↔
      Edge a.states p symbol q ∨ p = left.exit ∧ symbol = .epsilon ∧ q = right.entry := by
  obtain ⟨_, c, hc, rfl⟩ := concat_eq_ok.1 made
  rw [states_record, edge_absorb hc, List.mem_singleton]

lemma edge_union (made : a.union left right = .ok (f, b)) :
    Edge b.states p symbol q ↔
      Edge a.states p symbol q ∨
        p = a.size ∧ symbol = .epsilon ∧ (q = left.entry ∨ q = right.entry) ∨
        (p = left.exit ∨ p = right.exit) ∧ symbol = .epsilon ∧ q = a.size + 1 := by
  obtain ⟨_, c, d, hc, hd, rfl⟩ := union_eq_ok.1 made
  rw [states_record, edge_absorb hd, edge_absorb hc, edge_addPair]
  simp only [List.mem_cons, List.not_mem_nil, or_false, Prod.mk.injEq]
  tauto

lemma edge_star (made : a.star inner = .ok (f, b)) :
    Edge b.states p symbol q ↔
      Edge a.states p symbol q ∨
        (p = a.size ∨ p = inner.exit) ∧ symbol = .epsilon ∧ (q = inner.entry ∨ q = a.size + 1) := by
  obtain ⟨_, c, hc, rfl⟩ := star_eq_ok.1 made
  rw [states_record, edge_absorb hc, edge_addPair]
  simp only [List.mem_cons, List.not_mem_nil, or_false, Prod.mk.injEq]
  tauto

lemma accepting_char (c : Char) :
    Accepting (a.char c).2.states id ↔ Accepting a.states id ∨ id = a.size + 1 :=
  accepting_addPair _

lemma accepting_concat (made : a.concat left right = .ok (f, b)) :
    Accepting b.states id ↔ Accepting a.states id ∧ id ≠ left.exit := by
  obtain ⟨_, c, hc, rfl⟩ := concat_eq_ok.1 made
  rw [states_record, accepting_absorb hc]

lemma accepting_union (made : a.union left right = .ok (f, b)) :
    Accepting b.states id ↔
      (Accepting a.states id ∨ id = a.size + 1) ∧ id ≠ left.exit ∧ id ≠ right.exit := by
  obtain ⟨_, c, d, hc, hd, rfl⟩ := union_eq_ok.1 made
  rw [states_record, accepting_absorb hd, accepting_absorb hc, accepting_addPair, and_assoc]

lemma accepting_star (made : a.star inner = .ok (f, b)) :
    Accepting b.states id ↔ (Accepting a.states id ∨ id = a.size + 1) ∧ id ≠ inner.exit := by
  obtain ⟨_, c, hc, rfl⟩ := star_eq_ok.1 made
  rw [states_record, accepting_absorb hc, accepting_addPair]

lemma size_char (a : Arena) (c : Char) : (a.char c).2.size = a.size + 2 :=
  size_addPair a _

lemma size_concat (made : a.concat left right = .ok (f, b)) : b.size = a.size := by
  obtain ⟨_, c, hc, rfl⟩ := concat_eq_ok.1 made
  rw [size_record, size_of_absorb hc]

lemma size_union (made : a.union left right = .ok (f, b)) : b.size = a.size + 2 := by
  obtain ⟨_, c, d, hc, hd, rfl⟩ := union_eq_ok.1 made
  rw [size_record, size_of_absorb hd, size_of_absorb hc, size_addPair]

lemma size_star (made : a.star inner = .ok (f, b)) : b.size = a.size + 2 := by
  obtain ⟨_, c, hc, rfl⟩ := star_eq_ok.1 made
  rw [size_record, size_of_absorb hc, size_addPair]

/-! ## The rules apply to exits in the arena -/

lemma exists_concat (hleft : left.exit < a.size) : ∃ f b, a.concat left right = .ok (f, b) := by
  obtain ⟨b, hb⟩ := exists_absorb [right.entry] hleft
  exact ⟨_, _, concat_eq_ok.2 ⟨rfl, b, hb, rfl⟩⟩

lemma exists_union (hleft : left.exit < a.size) (hright : right.exit < a.size) :
    ∃ f b, a.union left right = .ok (f, b) := by
  have hleft' : left.exit < (a.addPair [(.epsilon, left.entry), (.epsilon, right.entry)]).size := by
    rw [size_addPair]
    omega
  obtain ⟨b, hb⟩ := exists_absorb [a.size + 1] hleft'
  have hright' : right.exit < b.size := by
    rw [size_of_absorb hb, size_addPair]
    omega
  obtain ⟨c, hc⟩ := exists_absorb [a.size + 1] hright'
  exact ⟨_, _, union_eq_ok.2 ⟨rfl, b, c, hb, hc, rfl⟩⟩

lemma exists_star (hinner : inner.exit < a.size) : ∃ f b, a.star inner = .ok (f, b) := by
  have hinner' : inner.exit < (a.addPair [(.epsilon, inner.entry), (.epsilon, a.size + 1)]).size := by
    rw [size_addPair]
    omega
  obtain ⟨b, hb⟩ := exists_absorb [inner.entry, a.size + 1] hinner'
  exact ⟨_, _, star_eq_ok.2 ⟨rfl, b, hb, rfl⟩⟩

end Arena

end RegexNfa
