import RegexNfa.Arena.Assembly
import RegexNfa.Expression.Grammar
import RegexNfa.Proofs.Arena.Rules
import RegexNfa.Proofs.Token.Reading
import RegexNfa.Token.PostfixWord

/-!
# What assembling makes of a stream

The stack of an assembly holds the live fragments of a grown arena, so it can be followed by the expressions
that they were built for.  `Reduces` says what a stretch of tokens does to that stack, whatever comes after;
stretches compose (`Reduces.trans`), and one token reduces as soon as there are operands enough
(`Reduces.ofToken`).  For the listing of a parse tree the result is its expression (`Reduces.ofTree`).

A stream reduces as far as the count of operands goes, and is refused at the first token at which the count
gives out (`assembleFrom_outcome`).  There is no other way for it to end.
-/

namespace RegexNfa

/-- What a token is refused for when it finds too few operands, or cannot be part of a stream at all. -/
def TokenKind.blame : TokenKind → InvalidExpression.Cause
  | parenOpen => .unclosedParen
  | parenClose => .unmatchedParen
  | operator => .missingOperand operator

namespace Arena

variable {source : List Char} {whole : Span} {a : Arena} {live : List LiveFragment} {t : Token}
  {ts us : List Token}

/-- Every literal among the tokens is read as a character of the text. -/
def Readable (source : List Char) (ts : List Token) : Prop :=
  ∀ t ∈ ts, t.kind = .literal → ∃ c, t.literal? source = .ok (some c)

/-- Assembling `ts` on a grown arena leads to a grown arena, and takes a stack that was built for the
expressions `before` to one that was built for `after`, whatever tokens come next. -/
def Reduces (source : List Char) (whole : Span) (ts : List Token) (before after : List Expression) :
    Prop :=
  ∀ (live : List LiveFragment) (a : Arena), Grown live a → live.map LiveFragment.expression = before →
    ∃ live' b, Grown live' b ∧ live'.map LiveFragment.expression = after ∧
      ∀ rest, assembleFrom source whole a (fragments live) (ts ++ rest) =
        assembleFrom source whole b (fragments live') rest

namespace Reduces

variable {before between after : List Expression} {l r e : Expression} {c : Char}

lemma refl (source : List Char) (whole : Span) (es : List Expression) :
    Reduces source whole [] es es := by
  intro live a h hlive
  exact ⟨live, a, h, hlive, fun rest => rfl⟩

lemma trans (first : Reduces source whole ts before between)
    (second : Reduces source whole us between after) :
    Reduces source whole (ts ++ us) before after := by
  intro live a h hlive
  obtain ⟨live₁, b, hb, hlive₁, hfirst⟩ := first live a h hlive
  obtain ⟨live₂, d, hd, hlive₂, hsecond⟩ := second live₁ b hb hlive₁
  refine ⟨live₂, d, hd, hlive₂, ?_⟩
  intro rest
  rw [List.append_assoc, hfirst, hsecond]

/-! ### One token -/

lemma literal (ht : t.kind = .literal) (hread : t.literal? source = .ok (some c)) :
    Reduces source whole [t] before (.literal c :: before) := by
  intro live a h hlive
  refine ⟨_, _, h.char c, congrArg _ hlive, ?_⟩
  intro rest
  obtain ⟨kind, span⟩ := t
  subst ht
  simp only [List.singleton_append, assembleFrom, hread]
  rfl

lemma star (ht : t.kind = .star) :
    Reduces source whole [t] (e :: before) (.star e :: before) := by
  intro live a h hlive
  obtain ⟨inner, live, rfl, rfl, hrest⟩ := List.map_eq_cons_iff.1 hlive
  have hinner : inner.fragment.exit < a.size := h.intact.exit_lt (by simp [fragments])
  obtain ⟨f, b, hmade⟩ := exists_star hinner
  refine ⟨_, b, h.star hmade, congrArg _ hrest, ?_⟩
  intro rest
  have hstack : fragments (inner :: live) = inner.fragment :: fragments live := rfl
  obtain ⟨kind, span⟩ := t
  subst ht
  simp only [List.singleton_append, hstack, assembleFrom, hmade, proceed]
  rfl

/-- A binary operator takes the right operand from the top of the stack and the left one from below. -/
lemma binary {rule : Arena → Fragment → Fragment → Except Fault (Fragment × Arena)}
    {join : Expression → Expression → Expression}
    (hassemble : ∀ a left right stack rest,
      assembleFrom source whole a (right :: left :: stack) (t :: rest) =
        a.proceed (rule a left right) fun f b => assembleFrom source whole b (f :: stack) rest)
    (hrule : ∀ (live : List LiveFragment) (a : Arena) (left right : LiveFragment),
      Grown (left :: right :: live) a → ∃ f b, rule a left.fragment right.fragment = .ok (f, b) ∧
        Grown (⟨f, join left.expression right.expression⟩ :: live) b) :
    Reduces source whole [t] (r :: l :: before) (join l r :: before) := by
  intro live a h hlive
  obtain ⟨right, live, rfl, rfl, hmore⟩ := List.map_eq_cons_iff.1 hlive
  obtain ⟨left, live, rfl, rfl, hrest⟩ := List.map_eq_cons_iff.1 hmore
  obtain ⟨f, b, hmade, hgrown⟩ := hrule live a left right (h.reorder (.swap left right live))
  refine ⟨_, b, hgrown, congrArg _ hrest, ?_⟩
  intro rest
  have hstack : fragments (right :: left :: live) =
      right.fragment :: left.fragment :: fragments live := rfl
  rw [List.singleton_append, hstack, hassemble, hmade]
  rfl

lemma concat (ht : t.kind = .concat) :
    Reduces source whole [t] (r :: l :: before) (.concat l r :: before) := by
  obtain ⟨kind, span⟩ := t
  subst ht
  refine binary (fun a left right stack rest => rfl) ?_
  intro live a left right h
  have hleft : left.fragment.exit < a.size := h.intact.exit_lt (by simp [fragments])
  obtain ⟨f, b, hmade⟩ := exists_concat hleft
  exact ⟨f, b, hmade, h.concat hmade⟩

lemma union (ht : t.kind = .union) :
    Reduces source whole [t] (r :: l :: before) (.union l r :: before) := by
  obtain ⟨kind, span⟩ := t
  subst ht
  refine binary (fun a left right stack rest => rfl) ?_
  intro live a left right h
  have hleft : left.fragment.exit < a.size := h.intact.exit_lt (by simp [fragments])
  have hright : right.fragment.exit < a.size := h.intact.exit_lt (by simp [fragments])
  obtain ⟨f, b, hmade⟩ := exists_union hleft hright
  exact ⟨f, b, hmade, h.union hmade⟩

/-! ### A parse tree -/

/-- The listing of a tree adds the tree's expression to any stack. -/
theorem ofTree (whole : Span) {tree : ParseTree} (hread : tree.ReadFrom source) :
    Reduces source whole tree.listing before (tree.expression :: before) := by
  induction tree generalizing before with
  | literal c place => exact literal rfl hread
  | concat l r place ihl ihr => exact ((ihl hread.1).trans (ihr hread.2)).trans (concat rfl)
  | union l r place ihl ihr => exact ((ihl hread.1).trans (ihr hread.2)).trans (union rfl)
  | star e place ih => exact (ih hread).trans (star rfl)

/-! ### Any stream -/

/-- Two operands are on top of a stack that has as many. -/
lemma exists_two (h : 2 ≤ before.length) : ∃ r l rest, before = r :: l :: rest := by
  obtain ⟨r, tail, rfl⟩ := List.length_pos_iff_exists_cons.1 (Nat.lt_of_lt_of_le Nat.two_pos h)
  obtain ⟨l, rest, rfl⟩ := List.length_pos_iff_exists_cons.1 (Nat.lt_of_succ_lt_succ h)
  exact ⟨r, l, rest, rfl⟩

/-- A token reduces as soon as there are operands enough. -/
lemma ofToken {n : Nat} (hread : Readable source [t])
    (hdepth : TokenKind.depth? before.length t.kind = some n) :
    ∃ after, after.length = n ∧ Reduces source whole [t] before after := by
  cases ht : t.kind with
  | literal =>
    rw [ht] at hdepth
    obtain ⟨c, hc⟩ := hread t (List.mem_singleton_self t) ht
    exact ⟨.literal c :: before, Option.some.inj hdepth, literal ht hc⟩
  | star =>
    rw [ht, TokenKind.depth?, Option.ite_none_right_eq_some] at hdepth
    obtain ⟨hle, hn⟩ := hdepth
    obtain ⟨e, before, rfl⟩ := List.length_pos_iff_exists_cons.1 hle
    exact ⟨.star e :: before, Option.some.inj hn, star ht⟩
  | concat =>
    rw [ht, TokenKind.depth?, Option.ite_none_right_eq_some] at hdepth
    obtain ⟨hle, hn⟩ := hdepth
    obtain ⟨r, l, before, rfl⟩ := exists_two hle
    exact ⟨.concat l r :: before, Option.some.inj hn, concat ht⟩
  | union =>
    rw [ht, TokenKind.depth?, Option.ite_none_right_eq_some] at hdepth
    obtain ⟨hle, hn⟩ := hdepth
    obtain ⟨r, l, before, rfl⟩ := exists_two hle
    exact ⟨.union l r :: before, Option.some.inj hn, union ht⟩
  | parenOpen | parenClose =>
    rw [ht] at hdepth
    simp [TokenKind.depth?] at hdepth

lemma ofTokens {n : Nat} (whole : Span) (hread : Readable source ts)
    (hdepth : TokenKind.depthAfter? before.length (ts.map Token.kind) = some n) :
    ∃ after, after.length = n ∧ Reduces source whole ts before after := by
  induction ts generalizing before with
  | nil => exact ⟨before, Option.some.inj hdepth, .refl source whole before⟩
  | cons t ts ih =>
    obtain ⟨m, hm, hn⟩ := Option.bind_eq_some_iff.1 hdepth
    obtain ⟨hhead, htail⟩ := List.forall_mem_cons.1 hread
    obtain ⟨between, rfl, hfirst⟩ := ofToken (List.forall_mem_singleton.2 hhead) hm
    obtain ⟨after, hafter, hsecond⟩ := ih htail hn
    exact ⟨after, hafter, hfirst.trans hsecond⟩

end Reduces

/-! ## Refusals -/

lemma assembleFrom_refuse {stack : List Fragment} {rest : List Token}
    (hdepth : TokenKind.depth? stack.length t.kind = none) :
    assembleFrom source whole a stack (t :: rest) = a.refuse t.kind.blame t.span := by
  obtain ⟨kind, span⟩ := t
  cases kind with
  | literal => simp [TokenKind.depth?] at hdepth
  | star =>
    cases stack with
    | nil => rfl
    | cons f stack => simp [TokenKind.depth?] at hdepth
  | concat | union =>
    cases stack with
    | nil => rfl
    | cons f stack =>
      cases stack with
      | nil => rfl
      | cons g stack => simp [TokenKind.depth?] at hdepth
  | parenOpen | parenClose => rfl

/-- Where a count of operands gives out. -/
lemma depthAfter?_eq_none {n : Nat}
    (h : TokenKind.depthAfter? n (ts.map Token.kind) = none) :
    ∃ before t after m, ts = before ++ t :: after ∧
      TokenKind.depthAfter? n (before.map Token.kind) = some m ∧ TokenKind.depth? m t.kind = none := by
  induction ts generalizing n with
  | nil => simp [TokenKind.depthAfter?] at h
  | cons t ts ih =>
    cases hm : TokenKind.depth? n t.kind with
    | none => exact ⟨[], t, ts, n, rfl, rfl, hm⟩
    | some m =>
      have hrest : TokenKind.depthAfter? n ((t :: ts).map Token.kind) =
          TokenKind.depthAfter? m (ts.map Token.kind) := by
        rw [List.map_cons, TokenKind.depthAfter?, List.foldlM_cons, hm]
        rfl
      rw [hrest] at h
      obtain ⟨before, u, after, k, rfl, hbefore, hu⟩ := ih h
      refine ⟨t :: before, u, after, k, rfl, ?_, hu⟩
      rw [List.map_cons, TokenKind.depthAfter?, List.foldlM_cons, hm]
      exact hbefore

/-- Assembling a stream follows the count of operands: to its end, or to the first token at which the count
gives out. -/
theorem assembleFrom_outcome (whole : Span) (hread : Readable source ts) (h : Grown live a) :
    (∃ live' b, Grown live' b ∧
      TokenKind.depthAfter? live.length (ts.map Token.kind) = some live'.length ∧
      assembleFrom source whole a (fragments live) ts = b.conclude whole (fragments live')) ∨
    ∃ before t after m, ∃ b : Arena, ts = before ++ t :: after ∧
      TokenKind.depthAfter? live.length (before.map Token.kind) = some m ∧
      TokenKind.depth? m t.kind = none ∧
      assembleFrom source whole a (fragments live) ts = b.refuse t.kind.blame t.span := by
  have hlength : live.length = (live.map LiveFragment.expression).length := (List.length_map _).symm
  cases hdepth : TokenKind.depthAfter? live.length (ts.map Token.kind) with
  | some n =>
    rw [hlength] at hdepth
    obtain ⟨after, rfl, hreduces⟩ := Reduces.ofTokens whole hread hdepth
    obtain ⟨live', b, hb, rfl, hassemble⟩ := hreduces live a h rfl
    refine .inl ⟨live', b, hb, by rw [List.length_map], ?_⟩
    have hall := hassemble []
    rw [List.append_nil] at hall
    exact hall
  | none =>
    obtain ⟨before, t, after, m, rfl, hbefore, ht⟩ := depthAfter?_eq_none hdepth
    rw [hlength] at hbefore
    have hread' : Readable source before := fun u hu => hread u (List.mem_append_left _ hu)
    obtain ⟨es, rfl, hreduces⟩ := Reduces.ofTokens whole hread' hbefore
    obtain ⟨live', b, hb, rfl, hassemble⟩ := hreduces live a h rfl
    rw [← hlength] at hbefore
    refine .inr ⟨before, t, after, _, b, rfl, hbefore, ht, ?_⟩
    rw [hassemble]
    apply assembleFrom_refuse
    rw [fragments, List.length_map]
    rw [List.length_map] at ht
    exact ht

end Arena

end RegexNfa
