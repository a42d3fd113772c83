import Mathlib.Data.List.Induction
import Mathlib.Tactic.Lemma
import RegexNfa.Token.PostfixWord

/-!
# Postfix words in a row

A count of operands never looks at what the operands are, and yet it says all that is to be said about the shape of
what was counted: where it comes out at `n`, the kinds are those of `n` postfix words in a row
(`depthAfter?_eq_some_iff`).  The words are found by following the count with the stack that it is the height of, where
each operand stands as the word that it came from.

So a list of kinds is a postfix word exactly if it is counted at one (`postfixWord_iff`), and it can be completed to one
exactly if it can be counted at all (`extendable_iff`): several words in a row are joined by concatenations.
-/

namespace RegexNfa

open TokenKind

/-- Some postfix word begins with these kinds. -/
def Extendable (kinds : List TokenKind) : Prop :=
  ∃ more, PostfixWord (kinds ++ more)

variable {kinds : List TokenKind} {k : TokenKind} {n : Nat} {words stack : List (List TokenKind)}

/-! ## Counting words -/

lemma depthAfter?_flatten (h : ∀ w ∈ words, PostfixWord w) (n : Nat) :
    depthAfter? n words.flatten = some (n + words.length) := by
  induction words generalizing n with
  | nil => rfl
  | cons w words ih =>
    obtain ⟨hw, hwords⟩ := List.forall_mem_cons.1 h
    rw [List.flatten_cons, depthAfter?_append, hw.depth, Option.bind_some, ih hwords, List.length_cons,
      Nat.add_assoc, Nat.add_comm 1]

lemma depthAfter?_concat (kinds : List TokenKind) (k : TokenKind) (n : Nat) :
    depthAfter? n (kinds ++ [k]) = (depthAfter? n kinds).bind fun m => depth? m k := by
  rw [depthAfter?_append]
  simp [depthAfter?]

/-! ## The words that are counted -/

/-- Two words are on top of a stack that has as many. -/
lemma exists_top_two (h : 2 ≤ stack.length) : ∃ right left rest, stack = right :: left :: rest := by
  match stack, h with
  | right :: left :: rest, _ => exact ⟨right, left, rest, rfl⟩

/-- A binary operator joins the two words on top of the stack. -/
lemma exists_stack_binary (hjoin : ∀ {s t}, PostfixWord s → PostfixWord t → PostfixWord (s ++ t ++ [k]))
    (h : ∀ w ∈ stack, PostfixWord w) (hle : 2 ≤ stack.length) :
    ∃ stack' : List (List TokenKind), stack'.length = stack.length - 1 ∧ (∀ w ∈ stack', PostfixWord w) ∧
      stack'.reverse.flatten = stack.reverse.flatten ++ [k] := by
  obtain ⟨right, left, rest, rfl⟩ := exists_top_two hle
  obtain ⟨hright, hmore⟩ := List.forall_mem_cons.1 h
  obtain ⟨hleft, hrest⟩ := List.forall_mem_cons.1 hmore
  refine ⟨(left ++ right ++ [k]) :: rest, rfl, List.forall_mem_cons.2 ⟨hjoin hleft hright, hrest⟩, ?_⟩
  simp

/-- One token does to the words on the stack what it does to their number.  The stack has the latest word first. -/
lemma exists_stack_concat (h : ∀ w ∈ stack, PostfixWord w) (hk : depth? stack.length k = some n) :
    ∃ stack' : List (List TokenKind), stack'.length = n ∧ (∀ w ∈ stack', PostfixWord w) ∧
      stack'.reverse.flatten = stack.reverse.flatten ++ [k] := by
  cases k with
  | literal =>
    refine ⟨[.literal] :: stack, Option.some.inj hk, List.forall_mem_cons.2 ⟨.literal, h⟩, ?_⟩
    simp
  | star =>
    rw [depth?, Option.ite_none_right_eq_some] at hk
    obtain ⟨hle, hn⟩ := hk
    obtain ⟨inner, rest, rfl⟩ := List.length_pos_iff_exists_cons.1 hle
    obtain ⟨hinner, hrest⟩ := List.forall_mem_cons.1 h
    refine ⟨(inner ++ [.star]) :: rest, Option.some.inj hn, List.forall_mem_cons.2 ⟨.star hinner, hrest⟩, ?_⟩
    simp
  | concat =>
    rw [depth?, Option.ite_none_right_eq_some] at hk
    obtain ⟨hle, hn⟩ := hk
    obtain rfl := Option.some.inj hn
    exact exists_stack_binary .concat h hle
  | union =>
    rw [depth?, Option.ite_none_right_eq_some] at hk
    obtain ⟨hle, hn⟩ := hk
    obtain rfl := Option.some.inj hn
    exact exists_stack_binary .union h hle
  | parenOpen | parenClose => exact absurd hk (by simp [depth?])

lemma exists_stack_of_depth (h : depthAfter? 0 kinds = some n) :
    ∃ stack : List (List TokenKind), stack.length = n ∧ (∀ w ∈ stack, PostfixWord w) ∧
      stack.reverse.flatten = kinds := by
  induction kinds using List.reverseRecOn generalizing n with
  | nil => exact ⟨[], Option.some.inj h, by simp, rfl⟩
  | append_singleton kinds k ih =>
    rw [depthAfter?_concat, Option.bind_eq_some_iff] at h
    obtain ⟨m, hm, hk⟩ := h
    obtain ⟨stack, rfl, hstack, rfl⟩ := ih hm
    exact exists_stack_concat hstack hk

/-- A count comes out at the number of words in a row. -/
theorem depthAfter?_eq_some_iff :
    depthAfter? 0 kinds = some n ↔
      ∃ words : List (List TokenKind), words.length = n ∧ (∀ w ∈ words, PostfixWord w) ∧ words.flatten = kinds := by
  constructor
  · intro h
    obtain ⟨stack, hlength, hstack, hflatten⟩ := exists_stack_of_depth h
    refine ⟨stack.reverse, ?_, ?_, hflatten⟩
    · rw [List.length_reverse, hlength]
    · intro w hw
      exact hstack w (List.mem_reverse.1 hw)
  · rintro ⟨words, rfl, hwords, rfl⟩
    rw [depthAfter?_flatten hwords, Nat.zero_add]

/-! ## Words and their beginnings -/

theorem postfixWord_iff : PostfixWord kinds ↔ depthAfter? 0 kinds = some 1 := by
  constructor
  · intro h
    exact h.depth 0
  · intro h
    obtain ⟨words, hlength, hwords, rfl⟩ := depthAfter?_eq_some_iff.1 h
    obtain ⟨w, rfl⟩ := List.length_eq_one_iff.1 hlength
    rw [List.flatten_singleton]
    exact hwords w (List.mem_singleton_self w)

/-- Concatenations join all that waits. -/
lemma depthAfter?_replicate_concat (n : Nat) :
    depthAfter? (n + 1) (List.replicate n .concat) = some 1 := by
  induction n with
  | zero => rfl
  | succ n ih =>
    have hjoin : depth? (n + 1 + 1) .concat = some (n + 1) := by
      rw [depth?, if_pos (by omega)]
      rfl
    rw [List.replicate_succ, depthAfter?, List.foldlM_cons, hjoin]
    exact ih

theorem extendable_iff : Extendable kinds ↔ ∃ n, depthAfter? 0 kinds = some n := by
  constructor
  · rintro ⟨more, hword⟩
    have hdepth := hword.depth 0
    rw [depthAfter?_append, Option.bind_eq_some_iff] at hdepth
    obtain ⟨n, hn, _⟩ := hdepth
    exact ⟨n, hn⟩
  · rintro ⟨n, hn⟩
    cases n with
    | zero =>
      refine ⟨[.literal], postfixWord_iff.2 ?_⟩
      rw [depthAfter?_append, hn]
      rfl
    | succ n =>
      refine ⟨List.replicate n .concat, postfixWord_iff.2 ?_⟩
      rw [depthAfter?_append, hn, Option.bind_some, depthAfter?_replicate_concat]

/-- What can be completed could be completed before. -/
lemma Extendable.begins {shorter : List TokenKind} (h : Extendable kinds) (hle : shorter <+: kinds) :
    Extendable shorter := by
  obtain ⟨rest, rfl⟩ := hle
  obtain ⟨more, hword⟩ := h
  rw [List.append_assoc] at hword
  exact ⟨rest ++ more, hword⟩

end RegexNfa
