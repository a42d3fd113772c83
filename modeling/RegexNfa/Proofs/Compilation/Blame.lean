import Mathlib.Data.List.Nodup
import RegexNfa.Proofs.Compilation.Acceptance
import RegexNfa.Proofs.Expression.Listing
import RegexNfa.Proofs.Token.RightOperand
import RegexNfa.Proofs.Token.Sides
import RegexNfa.Proofs.Token.Slices

/-!
# Which operator is blamed

Assembling blames the operator at which the count of operands gives out.  A repetition is blamed only if nothing has
gone out before it.  A binary operator with an expression on its left finds one operand there, so that if it is blamed,
its right operand added none: the stretch that was put into order while it waited has too few literals for its own
operators, and by `exists_lacking` one of these lacks an operand, or the blamed one does.

The culprit need not be the blamed operator, which may have expressions on both sides: an operator deeper inside takes
the operand that the outer one then misses (`compile_blames_operator_with_operands`).
-/

namespace RegexNfa

namespace Token

variable {t : Token} {ts before after out looser rest : List Token} {m : Nat}

/-- An expression before a position is behind a literal or ends with a repetition. -/
lemma exists_literal_or_star (h : OperandBefore (ts ++ rest) ts.length) :
    (∃ u ∈ ts, u.kind = .literal) ∨ ∃ us u, ts = us ++ [u] ∧ u.kind = .star := by
  obtain ⟨us, u, rfl, hkind⟩ := exists_concat_of_operandBefore h
  rcases hkind with hliteral | hstar | ⟨_, i, hgroup⟩
  · exact .inl ⟨u, by simp, hliteral⟩
  · exact .inr ⟨us, u, rfl, hstar⟩
  · obtain ⟨front, o, inner, c, back, hts, _, _, _, _, hlength, v, hv, hliteral⟩ := hgroup.split
    -- the group ends where the stretch does
    have hsame : us = front ++ o :: inner := by
      have hall : us ++ (u :: rest) = (front ++ o :: inner) ++ c :: back := by
        simpa using hts
      refine (List.append_inj hall ?_).1
      rw [hlength, List.length_append, List.length_cons]
      omega
    exact .inl ⟨v, by simp [hsame, hv], hliteral⟩

lemma isParen_of_isOperator (ht : t.kind.isOperator = true) : t.kind.isParen = false := by
  cases hkind : t.kind <;> simp_all [TokenKind.isOperator, TokenKind.isParen]

/-- No operator is lost. -/
lemma mem_postfixFrom (ht : t.kind.isOperator = true) (hmem : t ∈ ts) : t ∈ postfixFrom [] ts := by
  have hkept : t ∈ ts.filter (!·.kind.isParen) := by
    refine List.mem_filter.2 ⟨hmem, ?_⟩
    rw [isParen_of_isOperator ht]
    rfl
  exact (List.mem_filter.1 ((postfixFrom_perm [] ts).mem_iff.2 hkept)).1

/-- In a text no operator goes out twice. -/
lemma count_postfixFrom_eq_one (hnodup : ts.Nodup) (hmem : t ∈ ts) (ht : t.kind.isOperator = true) :
    (postfixFrom [] ts).count t = 1 := by
  have hcount : (postfixFrom [] ts).countP (· == t) = ts.countP (· == t) := by
    apply countP_postfixFrom
    intro u hu
    rw [eq_of_beq hu]
    exact isParen_of_isOperator ht
  exact hcount.trans (List.count_eq_one_of_mem hnodup hmem)

/-- What goes out before an operator has gone out before it came, or is its right operand. -/
lemma exists_operands (ht : t.kind.isOperator = true) (hnodup : (ts ++ t :: rest).Nodup)
    (hsends : postfixFrom [] (ts ++ t :: rest) = before ++ t :: after)
    (hout : ∀ rest, postfixFrom [] (ts ++ t :: rest) = out ++ postfixFrom (t :: looser) rest) :
    ∃ right behind, rest = right ++ behind ∧ (∀ u ∈ behind.head?, u.kind.startsOperand = false) ∧
      before = out ++ postfixFrom [] right := by
  obtain ⟨right, behind, more, rfl, hbehind, hsent⟩ := postfixFrom_above ht [] looser rest
  have honce := count_postfixFrom_eq_one hnodup (by simp) ht
  have hsplit := hout (right ++ behind)
  rw [List.nil_append] at hsent
  rw [hsent, hsends, ← List.append_assoc] at hsplit
  rw [hsends, List.count_append, List.count_cons_self] at honce
  have hbefore : t ∉ before := List.count_eq_zero.1 (by omega)
  have hafter : t ∉ after := List.count_eq_zero.1 (by omega)
  exact ⟨right, behind, rfl, hbehind, ((List.append_cons_inj_of_notMem hbefore hafter).1 hsplit).1⟩

/-- If the right operand of a binary operator adds no operand to those before it, some operator in it lacks one, or the
operator itself does. -/
lemma lacksWithin_of_count {n : Nat} (before : List Token) (ht : t.kind.isBinary = true) (hplaced : Placed false ts)
    (hn : 0 < n) (hcount : TokenKind.depthAfter? n ((postfixFrom [] ts).map Token.kind) = some m) (hm : m < 2)
    (hafter : ∀ u ∈ after.head?, u.kind.startsOperand = false) : LacksWithin before (t :: ts) after := by
  have hpaired : unpaired id [] ts = [] := by
    have hsent : brackets (postfixFrom [] ts) = unpaired id [] ts := brackets_postfixFrom ts (by simp)
    rw [← hsent]
    exact depthAfter?_brackets hcount
  have hsum := depthAfter?_add_binaries hcount
  have hbalance := literals_add_slips_of_placed hplaced
  have hliterals : literals (postfixFrom [] ts) = literals ts :=
    countP_postfixFrom (by simp_all [TokenKind.isParen]) ts
  have hbinaries : binaries (postfixFrom [] ts) = binaries ts := by
    apply countP_postfixFrom
    intro u hu
    cases hkind : u.kind <;> simp_all [TokenKind.isBinary, TokenKind.isParen]
  rw [hliterals, hbinaries] at hsum
  rw [Bool.toNat_false] at hbalance
  apply exists_lacking ht hplaced hpaired hafter
  cases hends : endsAfter false ts with
  | false => exact .inl rfl
  | true =>
    rw [hends, Bool.toNat_true] at hbalance
    exact .inr (by omega)

/-- An operator at which the count gives out has found no operand, or it is binary and has found one at most. -/
lemma few_of_refused (ht : t.kind.isOperator = true) (hrefused : TokenKind.depth? m t.kind = none) :
    (t.kind = .star ∧ m = 0) ∨ t.kind.isBinary = true ∧ m < 2 := by
  cases hkind : t.kind with
  | literal | parenOpen | parenClose =>
    rw [hkind] at ht
    exact absurd ht Bool.false_ne_true
  | star =>
    rw [hkind, TokenKind.depth?, ite_eq_right_iff] at hrefused
    refine .inl ⟨rfl, ?_⟩
    by_contra hm
    exact absurd (hrefused (Nat.pos_of_ne_zero hm)) (by simp)
  | union | concat =>
    rw [hkind, TokenKind.depth?, ite_eq_right_iff] at hrefused
    refine .inr ⟨rfl, ?_⟩
    by_contra hm
    exact absurd (hrefused (Nat.le_of_not_lt hm)) (by simp)

/-- An operator at which the count gives out lacks an operand, or it is binary and an operator in its right operand
lacks one. -/
lemma exists_lacking_of_refused (hplaced : Placed false ts) (hnodup : ts.Nodup)
    (hsends : postfixFrom [] ts = before ++ t :: after) (ht : t.kind.isOperator = true)
    (hbefore : TokenKind.depthAfter? 0 (before.map Token.kind) = some m)
    (hrefused : TokenKind.depth? m t.kind = none) :
    ∃ i, ts[i]? = some t ∧ (LacksOperand ts i ∨
      t.kind ≠ .star ∧ ∃ j u, i < j ∧ ts[j]? = some u ∧ LacksOperand ts j ∧ u ∈ before) := by
  have hmem : t ∈ ts := by
    have hsub := postfixFrom_subset [] ts
    rw [hsends, List.nil_append] at hsub
    exact hsub (by simp)
  obtain ⟨left, rest, rfl⟩ := List.append_of_mem hmem
  refine ⟨left.length, by simp, ?_⟩
  by_cases hside : OperandBefore (left ++ t :: rest) left.length
  · obtain ⟨out, looser, hne, hout⟩ := exists_left_operand ht (exists_literal_or_star hside)
    obtain ⟨right, behind, rfl, hbehind, rfl⟩ := exists_operands ht hnodup hsends hout
    rw [List.map_append, TokenKind.depthAfter?_append, Option.bind_eq_some_iff] at hbefore
    obtain ⟨n, hn, hm⟩ := hbefore
    have hpos : 0 < n := depthAfter?_pos hn (.inr hne)
    rcases few_of_refused ht hrefused with ⟨_, rfl⟩ | ⟨hbinary, hfew⟩
    · -- something went out for the expression on the left
      exact absurd (depthAfter?_pos hm (.inl hpos)) (Nat.lt_irrefl 0)
    · have hright : Placed t.kind.endsOperand right := (placed_append.1 (placed_append.1 hplaced).2.2.2).1
      rw [endsOperand_of_isBinary hbinary] at hright
      have hwithin : LacksWithin left (t :: right) behind :=
        lacksWithin_of_count left hbinary hright hpos hm hfew hbehind
      have hsplit : left ++ t :: (right ++ behind) = left ++ t :: right ++ behind := by simp
      rw [hsplit]
      rcases hwithin.first_or_behind with hself | ⟨j, u, hj, hu, hlacks, hmem, hoperator⟩
      · exact .inl hself
      · refine .inr ⟨?_, j, u, hj, hu, hlacks, List.mem_append_right out (mem_postfixFrom hoperator hmem)⟩
        intro hstar
        rw [hstar] at hbinary
        exact absurd hbinary Bool.false_ne_true
  · exact .inl ⟨t, by simp, ht, .inl hside⟩

end Token

open Token

variable {source : String} {logging : Bool} {op : TokenKind} {span : Span}

/-- An operator that is refused for want of operands is where the count gives out. -/
lemma exists_refused_of_missingOperand
    (h : compile source logging = .error (.invalid ⟨.missingOperand op, span⟩)) :
    op.isOperator = true ∧ ∃ before after m, (translated source).tokens = before ++ ⟨op, span⟩ :: after ∧
      TokenKind.depthAfter? 0 (before.map Token.kind) = some m ∧ TokenKind.depth? m op = none := by
  rcases compile_outcome source logging with ⟨_, c, hok, _⟩ | ⟨n, _, _, hfails⟩ |
    ⟨before, ⟨kind, place⟩, after, m, htokens, hbefore, ht, hfails⟩
  · rw [h] at hok
    exact absurd hok (by simp)
  · rw [h, Except.error.injEq, Failure.invalid.injEq, InvalidExpression.mk.injEq] at hfails
    obtain ⟨hcause, _⟩ := hfails
    split at hcause <;> exact absurd hcause (by simp)
  · rw [h, Except.error.injEq, Failure.invalid.injEq, InvalidExpression.mk.injEq] at hfails
    obtain ⟨hcause, rfl⟩ := hfails
    cases kind with
    | literal => exact absurd ht (by simp [TokenKind.depth?])
    | parenOpen | parenClose => exact absurd hcause (by simp [TokenKind.blame])
    | union | star | concat =>
      obtain rfl := InvalidExpression.Cause.missingOperand.inj hcause
      exact ⟨rfl, before, after, m, htokens, hbefore, ht⟩

/-- An operator that is refused for want of operands stands in the marked text.  It lacks an operand there, or, if it is
binary, an operator in its right operand does: one that stands after it and goes out before it. -/
theorem compile_blames_around_missing_operand
    (h : compile source logging = .error (.invalid ⟨.missingOperand op, span⟩)) :
    op.isOperator = true ∧
    ∃ i : Nat, (TokenStream.ofText source.toList).marked.tokens[i]? = some ⟨op, span⟩ ∧
      (LacksOperand (TokenStream.ofText source.toList).marked.tokens i ∨
        op ≠ .star ∧ ∃ (j : Nat) (u : Token), i < j ∧ (TokenStream.ofText source.toList).marked.tokens[j]? = some u ∧
          LacksOperand (TokenStream.ofText source.toList).marked.tokens j ∧
          ∃ p q : Nat, p < q ∧ (translated source).tokens[p]? = some u ∧
            (translated source).tokens[q]? = some ⟨op, span⟩) := by
  obtain ⟨hop, before, after, m, htokens, hbefore, hrefused⟩ := exists_refused_of_missingOperand h
  have hplaced : Placed false (mark (scanFrom 0 source.toList)) := by
    rw [← markAfter_false]
    exact placed_markAfter kind_ne_concat_of_mem_scanFrom
  obtain ⟨i, hi, hlacks⟩ :=
    exists_lacking_of_refused hplaced (nodup_mark source.toList) htokens hop hbefore hrefused
  refine ⟨hop, i, hi, ?_⟩
  rcases hlacks with hself | ⟨hstar, j, u, hij, hj, hlacks, hu⟩
  · exact .inl hself
  · obtain ⟨p, hp, hup⟩ := List.mem_iff_getElem.1 hu
    refine .inr ⟨hstar, j, u, hij, hj, hlacks, p, before.length, hp, ?_, ?_⟩
    · rw [htokens, List.getElem?_append_left hp, List.getElem?_eq_getElem hp, hup]
    · rw [htokens, List.getElem?_append_right (Nat.le_refl _), Nat.sub_self]
      rfl

/-- The union has an expression on either side, a literal and a group around one. -/
lemma not_lacksOperand_union {i : Nat}
    (hi : (TokenStream.ofText "a|(*b)".toList).marked.tokens[i]? = some ⟨.union, .ofChar 1 '|'⟩) :
    ¬ LacksOperand (TokenStream.ofText "a|(*b)".toList).marked.tokens i := by
  have hunion : (TokenStream.ofText "a|(*b)".toList).marked.tokens[1]? = some ⟨.union, .ofChar 1 '|'⟩ := rfl
  obtain ⟨hlt, _⟩ := List.getElem?_eq_some_iff.1 hi
  obtain rfl : i = 1 := (List.getElem?_inj hlt (nodup_mark "a|(*b)".toList)).1 (hi.trans hunion.symm)
  have hbefore : OperandBefore (TokenStream.ofText "a|(*b)".toList).marked.tokens 1 :=
    ⟨0, ⟨.literal, .ofChar 0 'a'⟩, rfl, rfl, .inl rfl⟩
  have hinner : Balanced [⟨.star, .ofChar 3 '*'⟩, ⟨.concat, .emptyAt 4⟩, ⟨.literal, .ofChar 4 'b'⟩] :=
    .plain rfl (.plain rfl (.plain rfl .nil))
  have hgroup : LiteralGroup ([⟨.literal, .ofChar 0 'a'⟩, ⟨.union, .ofChar 1 '|'⟩] ++ ⟨.parenOpen, .ofChar 2 '('⟩ ::
      ([⟨.star, .ofChar 3 '*'⟩, ⟨.concat, .emptyAt 4⟩, ⟨.literal, .ofChar 4 'b'⟩] ++
        [⟨.parenClose, .ofChar 5 ')'⟩])) 2 6 :=
    literalGroup_of_mem rfl rfl hinner (by simp : ⟨.literal, .ofChar 4 'b'⟩ ∈ _) rfl
  have hafter : OperandAfter (TokenStream.ofText "a|(*b)".toList).marked.tokens 1 :=
    ⟨⟨.parenOpen, .ofChar 2 '('⟩, rfl, .inr ⟨rfl, 6, hgroup⟩⟩
  intro hlacks
  obtain ⟨_, _, _, hnot | ⟨_, hnot⟩⟩ := hlacks
  · exact hnot hbefore
  · exact hnot hafter

/-- The repetition in the group has nothing to repeat, takes the literal before the union for its operand, and leaves
the union without one. -/
theorem compile_blames_operator_with_operands :
    compile "a|(*b)" = .error (.invalid ⟨.missingOperand .union, .ofChar 1 '|'⟩) ∧
      ¬ ∃ i : Nat, (TokenStream.ofText "a|(*b)".toList).marked.tokens[i]? = some ⟨.union, .ofChar 1 '|'⟩ ∧
        LacksOperand (TokenStream.ofText "a|(*b)".toList).marked.tokens i := by
  refine ⟨by decide, ?_⟩
  intro h
  obtain ⟨i, hi, hlacks⟩ := h
  exact not_lacksOperand_union hi hlacks

theorem compile_blames_around_missing_operand_group :
    compile "a|(*b)" = .error (.invalid ⟨.missingOperand .union, .ofChar 1 '|'⟩) ∧
      ∃ i j : Nat, (TokenStream.ofText "a|(*b)".toList).marked.tokens[i]? = some ⟨.union, .ofChar 1 '|'⟩ ∧ i < j ∧
        LacksOperand (TokenStream.ofText "a|(*b)".toList).marked.tokens j := by
  have hfails : compile "a|(*b)" = .error (.invalid ⟨.missingOperand .union, .ofChar 1 '|'⟩) := by decide
  obtain ⟨_, i, hi, hself | ⟨_, j, u, hij, _, hlacks, _⟩⟩ := compile_blames_around_missing_operand hfails
  · exact absurd hself (not_lacksOperand_union hi)
  · exact ⟨hfails, i, j, hi, hij, hlacks⟩

end RegexNfa
