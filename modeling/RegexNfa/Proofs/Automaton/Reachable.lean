import RegexNfa.Proofs.Automaton.Search
import RegexNfa.Proofs.Path.Leading

/-!
# What is reachable

`Automaton.reachable` lists the states that edges from the start lead to, each once
(`Closed.exists_reachable`).  Which states these are is what every search looks up; that none is listed twice is
kept by each round, since only newcomers join (`explore_nodup`).
-/

namespace RegexNfa

open Relation

/-- Following all edges spells whatever it spells. -/
lemma reflTransGen_along_iff {states : List State} {p q : Nat} :
    ReflTransGen (Along states fun _ => true) p q ↔ Leads states p q := by
  constructor
  · intro h
    induction h with
    | refl => exact .refl states p
    | tail _ last ih =>
      obtain ⟨_, _, edge⟩ := last
      exact ih.trans (.ofEdge edge)
  · intro h
    obtain ⟨w, path⟩ := h
    induction path with
    | here p => exact .refl
    | epsilon edge _ ih => exact .head ⟨_, rfl, edge⟩ ih
    | char edge _ ih => exact .head ⟨_, rfl, edge⟩ ih

namespace Automaton

variable {a : Automaton} {follow : Symbol → Bool} {d : Discipline} {pending seen found : List Nat}

/-- A search meets no state twice. -/
theorem explore_nodup (h : seen.Nodup) (hfound : a.explore follow d pending seen = .ok found) :
    found.Nodup := by
  obtain ⟨n, r⟩ := explore_rounds hfound
  exact r.nodup h

/-- Listing what is reachable looks up what the start leads to. -/
lemma reachable_looksUp (a : Automaton) : LooksUp a.size (Leads a.states a.start) a.reachable := by
  refine (explore_looksUp (.start fun _ => Iff.rfl)).congr ?_
  intro q
  simp only [List.mem_singleton, exists_eq_left, reflTransGen_along_iff]

lemma mem_reachable {order : List Nat} (h : a.reachable = .ok order) (q : Nat) :
    q ∈ order ↔ Leads a.states a.start q := by
  rw [mem_explore (.start fun _ => Iff.rfl) h q]
  simp only [List.mem_singleton, exists_eq_left, reflTransGen_along_iff]

/-- The states that the start leads to, each once. -/
theorem Closed.exists_reachable (ha : a.Closed) :
    ∃ order, a.reachable = .ok order ∧ order.Nodup ∧ ∀ q, q ∈ order ↔ Leads a.states a.start q := by
  have hinside : ∀ q, Leads a.states a.start q → q < a.size := by
    intro q leads
    obtain ⟨w, path⟩ := leads
    exact ha.path_lt path a.start_lt
  obtain ⟨order, horder⟩ := (reachable_looksUp a).ok_iff.2 hinside
  exact ⟨order, horder, explore_nodup (List.nodup_singleton _) horder, mem_reachable horder⟩

/-- When the start leads to every state, all of them are listed. -/
theorem Closed.reachable_perm (ha : a.Closed) (hall : ∀ id < a.size, Leads a.states a.start id) :
    ∃ order, a.reachable = .ok order ∧ order.Perm (List.range a.size) := by
  obtain ⟨order, horder, hnodup, hmem⟩ := ha.exists_reachable
  refine ⟨order, horder, ?_⟩
  refine (List.perm_ext_iff_of_nodup hnodup List.nodup_range).2 ?_
  intro q
  rw [hmem q, List.mem_range]
  constructor
  · intro leads
    obtain ⟨w, path⟩ := leads
    exact ha.path_lt path a.start_lt
  · exact hall q

end Automaton

end RegexNfa
