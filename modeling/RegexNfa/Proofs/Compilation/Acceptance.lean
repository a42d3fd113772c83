import RegexNfa.Proofs.Compilation.Outcome
import RegexNfa.Proofs.Expression.Parsing

/-!
# Which texts are compiled, and why others are not

No step before assembling looks for mistakes, and assembling itself only counts operands.  That is enough:
the count comes out at one exactly for a text that makes no slip, ends with an operand and has a partner for
every bracket, and such a text spells an expression.

A count of zero means that the text has no tokens but brackets, and none that is marked; those are the
`nested` texts.  A count above one never occurs.  Every other failure is that of a single token, and when the
token is a bracket it has no partner.
-/

namespace RegexNfa

open Token

variable {source : String} {s : List Char}

/-! ## Characters and their tokens -/

/-- The token at some place is that of the character there. -/
lemma exists_char_of_getElem?_scanFrom {offset i : Nat} {t : Token}
    (h : (scanFrom offset s)[i]? = some t) : ∃ c, s[i]? = some c ∧ t.kind = .ofChar c := by
  induction s generalizing offset i with
  | nil => exact absurd h (by simp [scanFrom])
  | cons c s ih =>
    cases i with
    | zero =>
      obtain rfl := Option.some.inj h
      exact ⟨c, rfl, rfl⟩
    | succ i => exact ih h

/-! ## Texts of nested brackets -/

/-- Opening brackets, and as many closing ones. -/
def nested (n : Nat) : List Char :=
  List.replicate n '(' ++ List.replicate n ')'

lemma nested_succ (n : Nat) : nested (n + 1) = '(' :: (nested n ++ [')']) := by
  rw [nested, List.replicate_succ, List.replicate_succ', nested, List.cons_append, List.append_assoc]

/-- Nothing of nested brackets is left once they are translated. -/
lemma reorders_nested (start n : Nat) : Reorders 1 (mark (scanFrom start (nested n))) [] := by
  induction n generalizing start with
  | zero => exact .nil 1
  | succ n ih =>
    rw [nested_succ, mark_group]
    exact .group 1 rfl rfl (ih (start + 1))

lemma isParen_cases {c : Char} (h : (TokenKind.ofChar c).isParen = true) : c = '(' ∨ c = ')' := by
  rcases TokenKind.ofChar_cases c with ⟨hc, _⟩ | ⟨hc, _⟩ | ⟨_, rfl⟩ | ⟨_, rfl⟩ | hc
  · exact absurd (hc ▸ h) (by decide)
  · exact absurd (hc ▸ h) (by decide)
  · exact .inl rfl
  · exact .inr rfl
  · exact absurd (hc ▸ h) (by decide)

/-- After a closing bracket only closing ones stand, if there are only brackets and nothing is marked. -/
lemma closing_of_markAfter {offset : Nat}
    (h : ∀ t ∈ markAfter true (scanFrom offset s), t.kind.isParen = true) :
    s = List.replicate s.length ')' := by
  induction s generalizing offset with
  | nil => rfl
  | cons c s ih =>
    obtain ⟨hfirst, hrest⟩ := List.forall_mem_append.1 h
    have hmem : ⟨.ofChar c, .ofChar offset c⟩ ∈ joined true ⟨.ofChar c, .ofChar offset c⟩ := by
      unfold joined
      split <;> simp
    rcases isParen_cases (hfirst _ hmem) with rfl | rfl
    · have hmarker := hfirst _ List.mem_cons_self
      exact absurd hmarker Bool.false_ne_true
    · rw [List.length_cons, List.replicate_succ, ← ih hrest]

/-- Brackets among which nothing is marked first open and then close. -/
lemma opening_closing_of_markAfter {offset : Nat}
    (h : ∀ t ∈ markAfter false (scanFrom offset s), t.kind.isParen = true) :
    ∃ a b, s = List.replicate a '(' ++ List.replicate b ')' := by
  induction s generalizing offset with
  | nil => exact ⟨0, 0, rfl⟩
  | cons c s ih =>
    obtain ⟨hfirst, hrest⟩ := List.forall_mem_append.1 h
    rcases isParen_cases (hfirst _ (List.mem_singleton_self _)) with rfl | rfl
    · obtain ⟨a, b, rfl⟩ := ih hrest
      exact ⟨a + 1, b, by rw [List.replicate_succ, List.cons_append]⟩
    · exact ⟨0, s.length + 1, by rw [List.replicate_succ, ← closing_of_markAfter hrest]; rfl⟩

/-- Brackets that all have partners are as many of either sort. -/
lemma eq_of_unpaired_eq_nil {opens : List Token} {a b offset : Nat}
    (h : unpaired id opens (scanFrom offset (List.replicate a '(' ++ List.replicate b ')')) = []) :
    opens.length + a = b := by
  induction a generalizing opens offset with
  | zero =>
    rw [List.replicate_zero, List.nil_append] at h
    induction b generalizing opens offset with
    | zero =>
      have hopens : opens = [] := h
      rw [hopens]
      rfl
    | succ b ih =>
      cases opens with
      | nil => exact absurd h (List.cons_ne_nil _ _)
      | cons o outer =>
        have hrest : outer.length + 0 = b := ih h
        rw [List.length_cons]
        omega
  | succ a ih =>
    have hrest : opens.length + 1 + a = b := ih h
    omega

/-- A text is translated into nothing exactly if it is nested brackets. -/
theorem translated_eq_nil : (translated source).tokens = [] ↔ ∃ n, source.toList = nested n := by
  have htokens : (translated source).tokens = postfixFrom [] (mark (scanFrom 0 source.toList)) := rfl
  rw [htokens]
  constructor
  · intro hnil
    have hparens : ∀ t ∈ markAfter false (scanFrom 0 source.toList), t.kind.isParen = true := by
      rw [markAfter_false]
      have hperm := postfixFrom_perm [] (mark (scanFrom 0 source.toList))
      rw [hnil, List.filter_nil] at hperm
      have hplain := List.filter_eq_nil_iff.1 hperm.nil_eq.symm
      intro t ht
      simpa using hplain t ht
    obtain ⟨a, b, hshape⟩ := opening_closing_of_markAfter hparens
    have hpaired : unpaired id [] (scanFrom 0 source.toList) = [] := by
      rw [← brackets_translated, hnil]
      rfl
    rw [hshape] at hpaired
    have hcount := eq_of_unpaired_eq_nil hpaired
    rw [List.length_nil, Nat.zero_add] at hcount
    exact ⟨a, by rw [hshape, hcount]; rfl⟩
  · intro hnested
    obtain ⟨n, hnested⟩ := hnested
    rw [hnested]
    exact (reorders_nested 0 n).postfixFrom_nil

/-! ## Outcomes -/

/-- The count of operands says what the text is. -/
lemma depthAfter?_translated_le {m : Nat}
    (h : TokenKind.depthAfter? 0 ((translated source).tokens.map Token.kind) = some m) :
    (m = 0 ∧ ∃ n, source.toList = nested n) ∨ (m = 1 ∧ ∃ tree, Spells source.toList tree) := by
  obtain ⟨hcount, hpaired⟩ := depthAfter?_translated kind_ne_concat_of_mem_scanFrom h
  by_cases hnil : (translated source).tokens = []
  · rw [hnil] at h
    obtain rfl := Option.some.inj h
    exact .inl ⟨rfl, translated_eq_nil.1 hnil⟩
  · -- the count is at least one, and the balance leaves room for no slip beside it
    have hpos : 0 < m := depthAfter?_pos h (.inr hnil)
    cases hends : endsAfter false (scanFrom 0 source.toList) with
    | false =>
      rw [hends] at hcount
      have hzero : m + slips false (scanFrom 0 source.toList) = 0 := hcount
      omega
    | true =>
      rw [hends] at hcount
      have hone : m + slips false (scanFrom 0 source.toList) = 1 := hcount
      exact .inr ⟨by omega, exists_spells_of_slips (by omega) hends hpaired⟩

/-- A compilation ends with an expression, with nested brackets or at a token of the translated text. -/
lemma compile_cases (source : String) (logging : Bool) :
    ((∃ tree, Spells source.toList tree) ∧ ∃ c, compile source logging = .ok c) ∨
    ((∃ n, source.toList = nested n) ∧
      compile source logging = .error (.invalid ⟨.empty, (translated source).fullSpan⟩)) ∨
    ∃ t ∈ (translated source).tokens,
      compile source logging = .error (.invalid ⟨t.kind.blame, t.span⟩) := by
  rcases compile_outcome source logging with ⟨hdepth, c, hcompile, _⟩ | ⟨n, hdepth, hne, hcompile⟩ |
    ⟨before, t, after, _, htokens, _, _, hcompile⟩
  · rcases depthAfter?_translated_le hdepth with ⟨hzero, _⟩ | ⟨_, hspells⟩
    · exact absurd hzero (by decide)
    · exact .inl ⟨hspells, c, hcompile⟩
  · rcases depthAfter?_translated_le hdepth with ⟨rfl, hnested⟩ | ⟨hone, _⟩
    · exact .inr (.inl ⟨hnested, hcompile⟩)
    · exact absurd hone hne
  · have ht : t ∈ (translated source).tokens := by
      rw [htokens]
      exact List.mem_append_right _ List.mem_cons_self
    exact .inr (.inr ⟨t, ht, hcompile⟩)

lemma compile_nested {n : Nat} (h : source.toList = nested n) (logging : Bool) :
    compile source logging = .error (.invalid ⟨.empty, (translated source).fullSpan⟩) := by
  have hnil : (translated source).tokens = [] := translated_eq_nil.2 ⟨n, h⟩
  rcases compile_outcome source logging with ⟨hdepth, _⟩ | ⟨m, hdepth, _, hcompile⟩ |
    ⟨before, t, after, _, htokens, _⟩
  · rw [hnil] at hdepth
    exact absurd (Option.some.inj hdepth) (by decide)
  · rw [hnil] at hdepth
    obtain rfl := Option.some.inj hdepth
    exact hcompile
  · rw [hnil] at htokens
    exact absurd htokens (by simp)

/-- A bracket that is refused has no partner in the text. -/
lemma exists_unmatched_of_refused {t : Token} {c : Char} (ht : t ∈ (translated source).tokens)
    (hkind : t.kind = .ofChar c) (hparen : t.kind.isParen = true) :
    ∃ i, source.toList[i]? = some c ∧ Unmatched (TokenStream.ofText source.toList).tokens i := by
  obtain ⟨i, hi, hunmatched⟩ := exists_unmatched_of_mem_postfixFrom ht hparen
  obtain ⟨d, hd, hkind'⟩ := exists_char_of_getElem?_scanFrom hi
  have hsame : d = c := by
    rcases isParen_cases (hkind ▸ hparen) with rfl | rfl <;>
      rcases isParen_cases (hkind' ▸ hparen) with rfl | rfl
    · rfl
    · exact absurd (hkind.symm.trans hkind') (by decide)
    · exact absurd (hkind.symm.trans hkind') (by decide)
    · rfl
  rw [hsame] at hd
  exact ⟨i, hd, hunmatched⟩

lemma kind_of_blame {k : TokenKind} :
    k.blame ≠ .empty ∧ (∀ n, k.blame ≠ .unconnected n) ∧ (k.blame = .unclosedParen → k = .parenOpen) ∧
      (k.blame = .unmatchedParen → k = .parenClose) := by
  cases k <;> simp [TokenKind.blame]

theorem exists_compile_iff_spells (source : String) (logging : Bool) :
    (∃ c, compile source logging = .ok c) ↔ ∃ tree, Spells source.toList tree := by
  constructor
  · intro hok
    obtain ⟨c, hc⟩ := hok
    rcases compile_cases source logging with ⟨hspells, _⟩ | ⟨_, hfails⟩ | ⟨t, _, hfails⟩
    · exact hspells
    · rw [hc] at hfails
      exact absurd hfails (by simp)
    · rw [hc] at hfails
      exact absurd hfails (by simp)
  · intro hspells
    obtain ⟨tree, htree⟩ := hspells
    obtain ⟨c, hc, _⟩ := compile_spells htree logging
    exact ⟨c, hc⟩

theorem compile_empty_iff_nested (source : String) (logging : Bool) :
    (∃ span, compile source logging = .error (.invalid ⟨.empty, span⟩)) ↔
      ∃ n, source.toList = nested n := by
  constructor
  · intro hempty
    obtain ⟨span, hempty⟩ := hempty
    rcases compile_cases source logging with ⟨_, c, hc⟩ | ⟨hnested, _⟩ | ⟨t, _, hfails⟩
    · rw [hc] at hempty
      exact absurd hempty (by simp)
    · exact hnested
    · rw [hempty, Except.error.injEq, Failure.invalid.injEq, InvalidExpression.mk.injEq] at hfails
      exact absurd hfails.1.symm kind_of_blame.1
  · intro hnested
    obtain ⟨n, hn⟩ := hnested
    exact ⟨_, compile_nested hn logging⟩

/-- The compiler accepts exactly the texts that spell an expression.  It calls a text empty exactly if it is
nested brackets; it never finds unconnected parts; and a bracket that it calls unclosed or unmatched has no
partner. -/
theorem compile_accepts_exactly (source : String) (logging : Bool) :
    ((∃ c, compile source logging = .ok c) ↔ ∃ tree, Spells source.toList tree) ∧
    ((∃ span, compile source logging = .error (.invalid ⟨.empty, span⟩)) ↔
      ∃ n, source.toList = List.replicate n '(' ++ List.replicate n ')') ∧
    ∀ failure, compile source logging = .error failure →
      ∃ e, failure = .invalid e ∧ (∀ n, e.cause ≠ .unconnected n) ∧
        (e.cause = .unclosedParen → ∃ i, source.toList[i]? = some '(' ∧
          Unmatched (TokenStream.ofText source.toList).tokens i) ∧
        (e.cause = .unmatchedParen → ∃ i, source.toList[i]? = some ')' ∧
          Unmatched (TokenStream.ofText source.toList).tokens i) := by
  refine ⟨exists_compile_iff_spells source logging, compile_empty_iff_nested source logging, ?_⟩
  intro failure hfailure
  rcases compile_cases source logging with ⟨_, c, hc⟩ | ⟨_, hfails⟩ | ⟨t, ht, hfails⟩
  · rw [hc] at hfailure
    exact absurd hfailure (by simp)
  · rw [hfails] at hfailure
    obtain rfl := Except.error.inj hfailure
    exact ⟨_, rfl, by simp, by simp, by simp⟩
  · rw [hfails] at hfailure
    obtain rfl := Except.error.inj hfailure
    obtain ⟨_, hunconnected, hopen, hclose⟩ := kind_of_blame (k := t.kind)
    refine ⟨_, rfl, hunconnected, ?_, ?_⟩
    · intro hcause
      have hkind := hopen hcause
      exact exists_unmatched_of_refused ht hkind (by rw [hkind]; rfl)
    · intro hcause
      have hkind := hclose hcause
      exact exists_unmatched_of_refused ht hkind (by rw [hkind]; rfl)

/-- A closing bracket between operands is refused for want of a partner, the pair after it is not. -/
theorem compile_accepts_exactly_stray :
    ∃ span, compile "a)b(c)" = .error (.invalid ⟨.unmatchedParen, span⟩) ∧
      (¬ ∃ tree, Spells "a)b(c)".toList tree) ∧
      ∃ i, "a)b(c)".toList[i]? = some ')' ∧
        Unmatched (TokenStream.ofText "a)b(c)".toList).tokens i := by
  have hfails : compile "a)b(c)" = .error (.invalid ⟨.unmatchedParen, .ofChar 1 ')'⟩) := by decide
  obtain ⟨haccepts, _, hcauses⟩ := compile_accepts_exactly "a)b(c)" false
  refine ⟨_, hfails, ?_, ?_⟩
  · rw [← haccepts]
    intro hok
    obtain ⟨c, hc⟩ := hok
    rw [hfails] at hc
    exact absurd hc (by simp)
  · obtain ⟨e, he, _, _, hclose⟩ := hcauses _ hfails
    obtain rfl := Failure.invalid.inj he
    exact hclose rfl

end RegexNfa
