import RegexNfa.Proofs.Arena.Language
import Mathlib.Computability.Language
import Mathlib.Logic.Relation

/-!
# The rules as operations on languages

What a fragment spells is a formal language, `Arena.spelling`, and so is what an expression stands for,
`Expression.language`.  In these terms the four rules are the regular operations: one word, product, sum and
Kleene star.

`RuleStep` is one rule applied to live fragments, so a chain of such steps is any further building on an arena
(`grown_iff`).  Since a live fragment always spells the language of its expression, such a chain changes
nothing for a fragment that is live at its end.
-/

namespace RegexNfa

open Computability Relation

/-! ## Languages of expressions -/

namespace Expression

variable {l r e : Expression}

/-- The texts that an expression stands for. -/
def language (e : Expression) : Language Char :=
  {t | e.Matches t}

lemma mem_language {t : List Char} : t ∈ e.language ↔ e.Matches t :=
  Iff.rfl

lemma language_literal (c : Char) : (literal c).language = {[c]} := by
  ext t
  exact matches_literal

lemma language_concat : (concat l r).language = l.language * r.language := by
  ext t
  rw [mem_language, matches_concat, Language.mem_mul]
  constructor
  · intro h
    obtain ⟨u, v, htext, hu, hv⟩ := h
    exact ⟨u, hu, v, hv, htext.symm⟩
  · intro h
    obtain ⟨u, hu, v, hv, htext⟩ := h
    exact ⟨u, v, htext.symm, hu, hv⟩

lemma language_union : (union l r).language = l.language + r.language := by
  ext t
  rw [mem_language, matches_union, Language.mem_add]
  exact Iff.rfl

lemma language_star : (star e).language = e.language∗ := by
  ext t
  rw [mem_language, matches_star, Language.mem_kstar]
  exact Iff.rfl

end Expression

namespace Arena

variable {a b : Arena} {live live' rest : List LiveFragment} {f : Fragment} {l r e : LiveFragment}

/-- The texts that lead through a fragment. -/
def spelling (a : Arena) (f : Fragment) : Language Char :=
  {w | Path a.states f.entry w f.exit}

lemma mem_spelling {w : List Char} : w ∈ a.spelling f ↔ Path a.states f.entry w f.exit :=
  Iff.rfl

/-! ## Building on -/

/-- One rule applied to live fragments, or another order of them. -/
inductive RuleStep : List LiveFragment × Arena → List LiveFragment × Arena → Prop where
  | char (live : List LiveFragment) (a : Arena) (c : Char) :
      RuleStep (live, a) (⟨(a.char c).1, .literal c⟩ :: live, (a.char c).2)
  | concat {live : List LiveFragment} {a b : Arena} {l r : LiveFragment} {f : Fragment}
      (made : a.concat l.fragment r.fragment = .ok (f, b)) :
      RuleStep (l :: r :: live, a) (⟨f, .concat l.expression r.expression⟩ :: live, b)
  | union {live : List LiveFragment} {a b : Arena} {l r : LiveFragment} {f : Fragment}
      (made : a.union l.fragment r.fragment = .ok (f, b)) :
      RuleStep (l :: r :: live, a) (⟨f, .union l.expression r.expression⟩ :: live, b)
  | star {live : List LiveFragment} {a b : Arena} {e : LiveFragment} {f : Fragment}
      (made : a.star e.fragment = .ok (f, b)) :
      RuleStep (e :: live, a) (⟨f, .star e.expression⟩ :: live, b)
  | reorder {live live' : List LiveFragment} {a : Arena} (perm : live.Perm live') :
      RuleStep (live, a) (live', a)

/-- A step goes on with a history. -/
lemma Grown.step (h : Grown live a) (step : RuleStep (live, a) (live', b)) : Grown live' b := by
  cases step with
  | char _ _ c => exact h.char c
  | concat made => exact h.concat made
  | union made => exact h.union made
  | star made => exact h.star made
  | reorder perm => exact h.reorder perm

lemma Grown.steps (h : Grown live a) (steps : ReflTransGen RuleStep (live, a) (live', b)) :
    Grown live' b := by
  generalize hend : (live', b) = last at steps
  induction steps generalizing live' b with
  | refl =>
    obtain ⟨rfl, rfl⟩ := Prod.mk.inj hend
    exact h
  | @tail before after _ step ih =>
    obtain ⟨between, d⟩ := before
    subst hend
    exact (ih rfl).step step

/-- A history is a chain of steps from an arena without states. -/
theorem grown_iff :
    Grown live a ↔ ∃ logging, ReflTransGen RuleStep ([], fresh logging) (live, a) := by
  constructor
  · intro h
    induction h with
    | fresh logging => exact ⟨logging, .refl⟩
    | char _ c ih => exact ih.imp fun _ steps => steps.tail (.char _ _ c)
    | concat _ made ih => exact ih.imp fun _ steps => steps.tail (.concat made)
    | union _ made ih => exact ih.imp fun _ steps => steps.tail (.union made)
    | star _ made ih => exact ih.imp fun _ steps => steps.tail (.star made)
    | reorder _ perm ih => exact ih.imp fun _ steps => steps.tail (.reorder perm)
  · intro h
    obtain ⟨logging, steps⟩ := h
    exact (Grown.fresh logging).steps steps

/-! ## What the rules make of languages -/

lemma Grown.spelling_eq (h : Grown live a) (hf : e ∈ live) :
    a.spelling e.fragment = e.expression.language := by
  ext w
  rw [mem_spelling, Expression.mem_language]
  exact h.path_iff_matches e hf w

/-- A fragment that is still live, whatever was built or combined since, spells what it did. -/
lemma Grown.spelling_steps (h : Grown live a) (steps : ReflTransGen RuleStep (live, a) (live', b))
    (hf : e ∈ live) (hf' : e ∈ live') : b.spelling e.fragment = a.spelling e.fragment := by
  rw [(h.steps steps).spelling_eq hf', h.spelling_eq hf]

lemma Grown.spelling_char (h : Grown live a) (c : Char) :
    (a.char c).2.spelling (a.char c).1 = {[c]} := by
  have hmade := (h.char c).spelling_eq List.mem_cons_self
  rw [hmade, Expression.language_literal]

lemma Grown.exists_concat_spelling (h : Grown (l :: r :: rest) a) :
    ∃ f b, a.concat l.fragment r.fragment = .ok (f, b) ∧
      b.spelling f = a.spelling l.fragment * a.spelling r.fragment := by
  have hexit : l.fragment.exit < a.size := h.intact.exit_lt (by simp [fragments])
  obtain ⟨f, b, hmade⟩ : ∃ f b, a.concat l.fragment r.fragment = .ok (f, b) := exists_concat hexit
  refine ⟨f, b, hmade, ?_⟩
  have hspelling := (h.concat hmade).spelling_eq List.mem_cons_self
  rw [hspelling, Expression.language_concat, h.spelling_eq (e := l) (by simp),
    h.spelling_eq (e := r) (by simp)]

lemma Grown.exists_union_spelling (h : Grown (l :: r :: rest) a) :
    ∃ f b, a.union l.fragment r.fragment = .ok (f, b) ∧
      b.spelling f = a.spelling l.fragment + a.spelling r.fragment := by
  have hleft : l.fragment.exit < a.size := h.intact.exit_lt (by simp [fragments])
  have hright : r.fragment.exit < a.size := h.intact.exit_lt (by simp [fragments])
  obtain ⟨f, b, hmade⟩ := exists_union hleft hright
  refine ⟨f, b, hmade, ?_⟩
  have hspelling := (h.union hmade).spelling_eq List.mem_cons_self
  rw [hspelling, Expression.language_union, h.spelling_eq (e := l) (by simp),
    h.spelling_eq (e := r) (by simp)]

lemma Grown.exists_star_spelling (h : Grown (e :: rest) a) :
    ∃ f b, a.star e.fragment = .ok (f, b) ∧ b.spelling f = (a.spelling e.fragment)∗ := by
  have hexit : e.fragment.exit < a.size := h.intact.exit_lt (by simp [fragments])
  obtain ⟨f, b, hmade⟩ := exists_star hexit
  refine ⟨f, b, hmade, ?_⟩
  have hspelling := (h.star hmade).spelling_eq List.mem_cons_self
  rw [hspelling, Expression.language_star, h.spelling_eq (e := e) (by simp)]

/-- After any history every live fragment spells the language of its expression.  Each rule applies to any
live fragments and is the regular operation of its name on what they spell, and no further building changes
what a fragment spells while it is live. -/
theorem Grown.rules_are_regular_operations (h : Grown live a) :
    (∀ f ∈ live, a.spelling f.fragment = f.expression.language) ∧
    (∀ c, (a.char c).2.spelling (a.char c).1 = {[c]}) ∧
    (∀ l r rest, live.Perm (l :: r :: rest) →
      (∃ f b, a.concat l.fragment r.fragment = .ok (f, b) ∧
        b.spelling f = a.spelling l.fragment * a.spelling r.fragment) ∧
      ∃ f b, a.union l.fragment r.fragment = .ok (f, b) ∧
        b.spelling f = a.spelling l.fragment + a.spelling r.fragment) ∧
    (∀ e rest, live.Perm (e :: rest) →
      ∃ f b, a.star e.fragment = .ok (f, b) ∧ b.spelling f = (a.spelling e.fragment)∗) ∧
    ∀ live' b, ReflTransGen RuleStep (live, a) (live', b) → ∀ f ∈ live, f ∈ live' →
      b.spelling f.fragment = a.spelling f.fragment := by
  refine ⟨fun f hf => h.spelling_eq hf, h.spelling_char, ?_, ?_, ?_⟩
  · intro l r rest hperm
    have hfront := h.reorder hperm
    exact ⟨hfront.exists_concat_spelling, hfront.exists_union_spelling⟩
  · intro e rest hperm
    exact (h.reorder hperm).exists_star_spelling
  · intro live' b steps f hf hf'
    exact h.spelling_steps steps hf hf'

/-- Three characters, the first and the last joined while the second stays live. -/
theorem rules_are_regular_operations_out_of_order :
    ∃ (live : List LiveFragment) (a b : Arena) (f : Fragment), Grown live a ∧
      ReflTransGen RuleStep (live, a)
        ([⟨f, .concat (.literal 'a') (.literal 'c')⟩, ⟨⟨2, 3⟩, .literal 'b'⟩], b) ∧
      b.spelling f = {['a']} * {['c']} ∧ b.spelling ⟨2, 3⟩ = {['b']} := by
  have hchars := (((Grown.fresh false).char 'a').char 'b').char 'c'
  obtain ⟨hlive, _, hbinary, _, hlater⟩ := hchars.rules_are_regular_operations
  have hperm := List.perm_append_singleton (⟨⟨0, 1⟩, .literal 'a'⟩ : LiveFragment)
    [⟨⟨4, 5⟩, .literal 'c'⟩, ⟨⟨2, 3⟩, .literal 'b'⟩]
  obtain ⟨⟨f, b, hmade, hspelling⟩, _⟩ := hbinary _ _ _ hperm
  have hsteps := (ReflTransGen.single (RuleStep.reorder hperm)).tail (.concat hmade)
  refine ⟨_, _, b, f, hchars, hsteps, ?_, ?_⟩
  · rw [hspelling, hlive ⟨⟨0, 1⟩, .literal 'a'⟩ (by decide), hlive ⟨⟨4, 5⟩, .literal 'c'⟩ (by decide),
      Expression.language_literal, Expression.language_literal]
  · rw [hlater _ _ hsteps ⟨⟨2, 3⟩, .literal 'b'⟩ (by decide) (by simp),
      hlive ⟨⟨2, 3⟩, .literal 'b'⟩ (by decide), Expression.language_literal]

end Arena

end RegexNfa
