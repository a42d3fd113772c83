import RegexNfa.Proofs.Token.Sending
import RegexNfa.Token.Marking

/-!
# What an operator waits for

While an operator waits, a stretch of tokens is put into postfix order above it, and then it goes out
(`postfixFrom_above`): the stretch is its right operand, and what goes out for it is what would go out if it stood
alone.  What went out before the operator came is its left operand; something did, if an operand ends there
(`exists_left_operand`).
-/

namespace RegexNfa

namespace Token

variable {t x : Token} {ops tighter waiting rest : List Token}

/-! ## The right operand -/

/-- When an operator that the waiting `t` yields to comes in, `t` goes out behind all above it. -/
lemma exists_out_of_operator (hx : x.kind.isOperator = true)
    (hops : ∀ op ∈ ops, yieldsTo x.kind.precedence op = true) (ht : yieldsTo x.kind.precedence t = true)
    (looser rest : List Token) :
    ∃ more, postfixFrom (ops ++ t :: looser) (x :: rest) = ops ++ t :: more := by
  obtain ⟨tighter, looser, rfl, htighter, hlooser⟩ := exists_cut (yieldsTo x.kind.precedence) looser
  have hall : ∀ op ∈ ops ++ t :: tighter, yieldsTo x.kind.precedence op = true :=
    List.forall_mem_append.2 ⟨hops, List.forall_mem_cons.2 ⟨ht, htighter⟩⟩
  have hsent : postfixFrom ((ops ++ t :: tighter) ++ looser) (x :: rest) =
      (ops ++ t :: tighter) ++ postfixFrom (x :: looser) rest := postfixFrom_operator hx hall hlooser
  rw [List.append_assoc, List.cons_append] at hsent
  exact ⟨_, by rw [hsent, List.append_assoc, List.cons_append]⟩

/-- When a closing bracket comes in and there is no opening one above `t`, `t` goes out behind all above it. -/
lemma exists_out_of_closing (hx : x.kind = .parenClose) (hops : ∀ op ∈ ops, op.kind ≠ .parenOpen)
    (ht : t.kind ≠ .parenOpen) (looser rest : List Token) :
    ∃ more, postfixFrom (ops ++ t :: looser) (x :: rest) = ops ++ t :: more := by
  obtain ⟨inner, outer, rfl, hinner, houter⟩ := exists_cut (·.kind ≠ TokenKind.parenOpen) looser
  have hall : ∀ op ∈ ops ++ t :: inner, op.kind ≠ .parenOpen :=
    List.forall_mem_append.2 ⟨hops, List.forall_mem_cons.2 ⟨ht, fun op hop => of_decide_eq_true (hinner op hop)⟩⟩
  cases outer with
  | nil =>
    have hsent : postfixFrom (ops ++ t :: inner) (x :: rest) = (ops ++ t :: inner) ++ x :: postfixFrom [] rest :=
      postfixFrom_stray hx hall
    rw [List.append_nil]
    exact ⟨_, by rw [hsent, List.append_assoc, List.cons_append]⟩
  | cons opening outer =>
    have hopening : opening.kind = .parenOpen := by simpa using houter opening rfl
    have hsent : postfixFrom ((ops ++ t :: inner) ++ opening :: outer) (x :: rest) =
        (ops ++ t :: inner) ++ postfixFrom outer rest := postfixFrom_parenClose hopening hx hall
    rw [List.append_assoc, List.cons_append] at hsent
    exact ⟨_, by rw [hsent, List.append_assoc, List.cons_append]⟩

/-- A waiting operator goes out behind what a stretch of the tokens sends out if it stands alone.  What comes after
this stretch does not start an operand. -/
theorem postfixFrom_above (ht : t.kind.isOperator = true) (ops looser ts : List Token) :
    ∃ right after more, ts = right ++ after ∧ (∀ u ∈ after.head?, u.kind.startsOperand = false) ∧
      postfixFrom (ops ++ t :: looser) ts = postfixFrom ops right ++ t :: more := by
  have hopen : t.kind ≠ .parenOpen := by
    intro hkind
    rw [hkind] at ht
    exact absurd ht Bool.false_ne_true
  induction ts generalizing ops with
  | nil => exact ⟨[], [], looser, rfl, by simp, rfl⟩
  | cons x rest ih =>
    -- the stretch ends before a token that sends out `t`
    have hends : x.kind.startsOperand = false →
        (∃ more, postfixFrom (ops ++ t :: looser) (x :: rest) = ops ++ t :: more) →
        ∃ right after more, x :: rest = right ++ after ∧ (∀ u ∈ after.head?, u.kind.startsOperand = false) ∧
          postfixFrom (ops ++ t :: looser) (x :: rest) = postfixFrom ops right ++ t :: more := by
      intro hstarts hmore
      obtain ⟨more, hmore⟩ := hmore
      refine ⟨[], x :: rest, more, rfl, ?_, hmore⟩
      intro u hu
      rw [← Option.some.inj hu]
      exact hstarts
    cases hkind : x.kind with
    | literal =>
      obtain ⟨right, after, more, rfl, hafter, hsent⟩ := ih ops
      refine ⟨x :: right, after, more, rfl, hafter, ?_⟩
      rw [postfixFrom_literal hkind, postfixFrom_literal hkind, hsent, List.cons_append]
    | parenOpen =>
      obtain ⟨right, after, more, rfl, hafter, hsent⟩ := ih (x :: ops)
      refine ⟨x :: right, after, more, rfl, hafter, ?_⟩
      rw [postfixFrom_parenOpen hkind, postfixFrom_parenOpen hkind]
      exact hsent
    | parenClose =>
      obtain ⟨inner, outer, rfl, hinner, houter⟩ := exists_cut (·.kind ≠ TokenKind.parenOpen) ops
      have hinner' : ∀ op ∈ inner, op.kind ≠ .parenOpen := fun op hop => of_decide_eq_true (hinner op hop)
      cases outer with
      | nil =>
        rw [List.append_nil] at hends ⊢
        exact hends (by rw [hkind]; rfl) (exists_out_of_closing hkind hinner' hopen looser rest)
      | cons opening outer =>
        have hopening : opening.kind = .parenOpen := by simpa using houter opening rfl
        obtain ⟨right, after, more, rfl, hafter, hsent⟩ := ih outer
        refine ⟨x :: right, after, more, rfl, hafter, ?_⟩
        rw [List.append_assoc, List.cons_append, postfixFrom_parenClose hopening hkind hinner',
          postfixFrom_parenClose hopening hkind hinner', hsent, List.append_assoc]
    | union | star | concat =>
      have hx : x.kind.isOperator = true := by
        rw [hkind]
        rfl
      obtain ⟨tighter, stay, rfl, htighter, hstay⟩ := exists_cut (yieldsTo x.kind.precedence) ops
      by_cases hout : stay = [] ∧ yieldsTo x.kind.precedence t = true
      · obtain ⟨rfl, hyields⟩ := hout
        rw [List.append_nil] at hends ⊢
        exact hends (by rw [hkind]; rfl) (exists_out_of_operator hx htighter hyields looser rest)
      · -- something above `t`, or `t` itself, holds
        have hhead : ∀ top ∈ (stay ++ t :: looser).head?, yieldsTo x.kind.precedence top = false := by
          cases stay with
          | nil =>
            intro top htop
            rw [← Option.some.inj htop, ← Bool.not_eq_true]
            exact fun hyields => hout ⟨rfl, hyields⟩
          | cons top stay => exact hstay
        obtain ⟨right, after, more, rfl, hafter, hsent⟩ := ih (x :: stay)
        refine ⟨x :: right, after, more, rfl, hafter, ?_⟩
        rw [List.append_assoc, postfixFrom_operator hx htighter hhead, postfixFrom_operator hx htighter hstay,
          List.append_assoc]
        exact congrArg _ hsent

/-! ## The left operand -/

/-- A beginning sends out something and leaves something waiting, whatever follows.  Literals do not wait. -/
lemma exists_postfixFrom_append (ts : List Token) (hwaiting : ∀ w ∈ waiting, w.kind ≠ .literal) :
    ∃ out waiting', (∀ w ∈ waiting', w.kind ≠ .literal) ∧
      ∀ rest, postfixFrom waiting (ts ++ rest) = out ++ postfixFrom waiting' rest := by
  induction ts generalizing waiting with
  | nil => exact ⟨[], waiting, hwaiting, fun rest => rfl⟩
  | cons t ts ih =>
    obtain ⟨first, between, hsends, hfirst⟩ := exists_sends t waiting
    obtain ⟨later, waiting', hwaiting', hlater⟩ := ih (hsends.filter_literal hwaiting).1
    refine ⟨first ++ later, waiting', hwaiting', ?_⟩
    intro rest
    rw [List.cons_append, hfirst, hlater, List.append_assoc]

/-- When an operator comes in, it waits on top, and what has gone out has all literals. -/
lemma exists_out_before (ht : t.kind.isOperator = true) (ts : List Token) :
    ∃ out looser, ((∃ u ∈ ts, u.kind = .literal) → out ≠ []) ∧
      ∀ rest, postfixFrom [] (ts ++ t :: rest) = out ++ postfixFrom (t :: looser) rest := by
  have hnone : ∀ w ∈ ([] : List Token), w.kind ≠ .literal := by simp
  obtain ⟨out, waiting, hwaiting, hsent⟩ := exists_postfixFrom_append ts hnone
  obtain ⟨tighter, looser, rfl, htighter, hlooser⟩ := exists_cut (yieldsTo t.kind.precedence) waiting
  refine ⟨out ++ tighter, looser, ?_, ?_⟩
  · intro hliteral hempty
    obtain ⟨u, hu, hkind⟩ := hliteral
    obtain ⟨rfl, _⟩ := List.append_eq_nil_iff.1 hempty
    -- the literal is kept, and is not among those that wait
    have hkept : u ∈ (postfixFrom [] (ts ++ [])).filter (·.kind = .literal) := by
      rw [filter_literal_postfixFrom _ hnone, List.append_nil]
      exact List.mem_filter.2 ⟨hu, decide_eq_true hkind⟩
    rw [hsent, postfixFrom] at hkept
    exact hwaiting u (List.mem_filter.1 hkept).1 hkind
  · intro rest
    rw [hsent, postfixFrom_operator ht htighter hlooser, List.append_assoc]

/-- A repetition yields to every operator. -/
lemma yieldsTo_star (ht : t.kind.isOperator = true) (hx : x.kind = .star) : yieldsTo t.kind.precedence x = true := by
  rw [yieldsTo, hx]
  cases hkind : t.kind with
  | literal | parenOpen | parenClose =>
    rw [hkind] at ht
    exact absurd ht Bool.false_ne_true
  | union | star | concat => rfl

/-- When an operator comes in behind a literal, or right behind a repetition, something has gone out. -/
theorem exists_left_operand (ht : t.kind.isOperator = true) {ts : List Token}
    (hleft : (∃ u ∈ ts, u.kind = .literal) ∨ ∃ us u, ts = us ++ [u] ∧ u.kind = .star) :
    ∃ out looser, out ≠ [] ∧ ∀ rest, postfixFrom [] (ts ++ t :: rest) = out ++ postfixFrom (t :: looser) rest := by
  rcases hleft with hliteral | ⟨us, u, rfl, hstar⟩
  · obtain ⟨out, looser, hout, hsent⟩ := exists_out_before ht ts
    exact ⟨out, looser, hout hliteral, hsent⟩
  · have hu : u.kind.isOperator = true := by
      rw [hstar]
      rfl
    obtain ⟨out, waiting, _, hsent⟩ := exists_out_before hu us
    obtain ⟨tighter, looser, rfl, htighter, hlooser⟩ := exists_cut (yieldsTo t.kind.precedence) waiting
    refine ⟨out ++ u :: tighter, looser, by simp, ?_⟩
    intro rest
    have hall : ∀ op ∈ u :: tighter, yieldsTo t.kind.precedence op = true :=
      List.forall_mem_cons.2 ⟨yieldsTo_star ht hstar, htighter⟩
    rw [List.append_assoc, List.singleton_append, hsent, ← List.cons_append,
      postfixFrom_operator ht hall hlooser, List.append_assoc]

end Token

end RegexNfa
