import RegexNfa.Proofs.Compilation.Acceptance
import RegexNfa.Proofs.Token.Partners

/-!
# Brackets without partner in an error

Postfix order loses no token but brackets that have a partner.  What is left of the brackets comes out in a fixed order,
closing ones from the first to the last and then opening ones from the last to the first, and assembling stops at the
first bracket that it meets.  So an error about a bracket names the first closing bracket without partner, and the last
opening one only if there is no closing one (`postfix_order_keeps_strays`).
-/

namespace RegexNfa

open Token

variable {source : String} {logging : Bool} {cause : InvalidExpression.Cause} {span : Span}

/-- What is left of the brackets of a text once it is translated. -/
lemma brackets_translated_eq (source : String) :
    brackets (translated source).tokens = (unmatched .parenClose (TokenStream.ofText source.toList).tokens ++
      (unmatched .parenOpen (TokenStream.ofText source.toList).tokens).reverse).map Prod.fst := by
  rw [← unpaired_id_eq]
  exact brackets_translated _

/-- A bracket that is refused is the first one left. -/
lemma exists_bracket_of_refused
    (h : compile source logging = .error (.invalid ⟨cause, span⟩))
    (hcause : cause = .unclosedParen ∨ cause = .unmatchedParen) :
    ∃ t rest, brackets (translated source).tokens = t :: rest ∧ t.kind.blame = cause ∧ t.span = span := by
  rcases compile_outcome source logging with ⟨_, c, hok, _⟩ | ⟨n, _, _, hfails⟩ |
    ⟨before, t, after, m, htokens, hbefore, _, hfails⟩
  · rw [h] at hok
    exact absurd hok (by simp)
  · rw [h, Except.error.injEq, Failure.invalid.injEq, InvalidExpression.mk.injEq] at hfails
    obtain ⟨rfl, _⟩ := hfails
    split at hcause <;> simp at hcause
  · rw [h, Except.error.injEq, Failure.invalid.injEq, InvalidExpression.mk.injEq] at hfails
    obtain ⟨rfl, rfl⟩ := hfails
    -- operands are counted up to here, so no bracket came before
    have hnone : brackets before = [] := depthAfter?_brackets hbefore
    have hparen : t.kind.isParen = true := by
      obtain ⟨_, _, hopen, hclose⟩ := kind_of_blame (k := t.kind)
      rcases hcause with hcause | hcause
      · rw [hopen hcause]
        rfl
      · rw [hclose hcause]
        rfl
    refine ⟨t, brackets after, ?_, rfl, rfl⟩
    rw [htokens, brackets_append, hnone, brackets_cons_paren hparen, List.nil_append]

/-- Of the first bracket left, its kind says which of the two sorts are left. -/
lemma first_of_brackets {ts : List Token} {t : Token} {rest : List Token}
    (h : (unmatched .parenClose ts ++ (unmatched .parenOpen ts).reverse).map Prod.fst = t :: rest) :
    (t.kind = .parenClose ∧ ∃ i, (unmatched .parenClose ts).head? = some (t, i)) ∨
    (t.kind = .parenOpen ∧ unmatched .parenClose ts = [] ∧ ∃ i, (unmatched .parenOpen ts).getLast? = some (t, i)) := by
  obtain ⟨⟨u, i⟩, others, hsplit, rfl, _⟩ := List.map_eq_cons_iff.1 h
  cases hclosing : unmatched .parenClose ts with
  | nil =>
    rw [hclosing, List.nil_append] at hsplit
    have hlast : (unmatched .parenOpen ts).getLast? = some (u, i) := by
      rw [← List.head?_reverse, hsplit]
      rfl
    exact .inr ⟨(mem_unmatched.1 (List.mem_of_getLast? hlast)).2.1, rfl, i, hlast⟩
  | cons c closing =>
    rw [hclosing, List.cons_append] at hsplit
    obtain rfl := List.head_eq_of_cons_eq hsplit
    have hmem : (u, i) ∈ unmatched .parenClose ts := by
      rw [hclosing]
      exact List.mem_cons_self
    exact .inl ⟨(mem_unmatched.1 hmem).2.1, i, rfl⟩

/-- Postfix order keeps every token that is no bracket, the literals in order, and of the brackets exactly those without
partner: closing ones in order, then opening ones in reverse order.  In a text that is refused for a bracket, it is the
first closing one without partner, or if there is none, the last opening one. -/
theorem postfix_order_keeps_strays :
    (∀ s : TokenStream,
      (s.postfixed.tokens.filter (!·.kind.isParen)).Perm (s.tokens.filter (!·.kind.isParen)) ∧
      s.postfixed.tokens.filter (·.kind = .literal) = s.tokens.filter (·.kind = .literal) ∧
      s.postfixed.tokens.filter (·.kind.isParen) =
        (unmatched .parenClose s.tokens ++ (unmatched .parenOpen s.tokens).reverse).map Prod.fst) ∧
    ∀ (source : String) (logging : Bool) (span : Span),
      (compile source logging = .error (.invalid ⟨.unmatchedParen, span⟩) →
        ∃ t i, (unmatched .parenClose (TokenStream.ofText source.toList).tokens).head? = some (t, i) ∧
          t.span = span) ∧
      (compile source logging = .error (.invalid ⟨.unclosedParen, span⟩) →
        unmatched .parenClose (TokenStream.ofText source.toList).tokens = [] ∧
        ∃ t i, (unmatched .parenOpen (TokenStream.ofText source.toList).tokens).getLast? = some (t, i) ∧
          t.span = span) := by
  refine ⟨?_, ?_⟩
  · intro s
    refine ⟨postfixFrom_perm [] s.tokens, filter_literal_postfixFrom s.tokens (by simp), ?_⟩
    rw [← unpaired_id_eq]
    exact brackets_postfixFrom s.tokens (by simp)
  · intro source logging span
    refine ⟨?_, ?_⟩
    · intro h
      obtain ⟨t, rest, hfirst, hblame, hspan⟩ := exists_bracket_of_refused h (.inr rfl)
      rw [brackets_translated_eq] at hfirst
      rcases first_of_brackets hfirst with ⟨_, i, hhead⟩ | ⟨hopen, _⟩
      · exact ⟨t, i, hhead, hspan⟩
      · rw [hopen] at hblame
        exact absurd hblame (by decide)
    · intro h
      obtain ⟨t, rest, hfirst, hblame, hspan⟩ := exists_bracket_of_refused h (.inl rfl)
      rw [brackets_translated_eq] at hfirst
      rcases first_of_brackets hfirst with ⟨hclose, _⟩ | ⟨_, hnone, i, hlast⟩
      · rw [hclose] at hblame
        exact absurd hblame (by decide)
      · exact ⟨hnone, t, i, hlast, hspan⟩

/-- Of three brackets without partner the closing one is refused, although an opening one stands before it; without it,
the last opening one is. -/
theorem postfix_order_keeps_strays_crossed :
    (∃ t i, (unmatched .parenClose (TokenStream.ofText "a)b((c)".toList).tokens).head? = some (t, i) ∧
      t.span = .ofChar 1 ')') ∧
    unmatched .parenClose (TokenStream.ofText "(a((b)".toList).tokens = [] ∧
    ∃ t i, (unmatched .parenOpen (TokenStream.ofText "(a((b)".toList).tokens).getLast? = some (t, i) ∧
      t.span = .ofChar 2 '(' := by
  obtain ⟨_, hcompile⟩ := postfix_order_keeps_strays
  have hclose : compile "a)b((c)" = .error (.invalid ⟨.unmatchedParen, .ofChar 1 ')'⟩) := by decide
  have hopen : compile "(a((b)" = .error (.invalid ⟨.unclosedParen, .ofChar 2 '('⟩) := by decide
  exact ⟨(hcompile _ false _).1 hclose, (hcompile _ false _).2 hopen⟩

end RegexNfa
