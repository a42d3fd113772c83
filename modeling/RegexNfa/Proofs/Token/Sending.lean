import RegexNfa.Token.Postfix
import Mathlib.Data.List.TakeDrop
import Mathlib.Tactic.Lemma

/-!
# What one token sends out

`Sends` says all that an incoming token can do to the waiting tokens, and `exists_sends` that postfix order
does nothing else.  What holds of a whole translation is then an induction with five short cases; the first
such law is that tokens other than brackets are kept (`postfixFrom_perm`).
-/

namespace RegexNfa

namespace Token

variable {ops waiting : List Token}

/-! ## Cutting the waiting tokens -/

/-- The waiting tokens can be cut where the first one stays. -/
lemma exists_cut (goes : Token → Bool) (waiting : List Token) :
    ∃ ops looser, waiting = ops ++ looser ∧ (∀ op ∈ ops, goes op = true) ∧
      ∀ top ∈ looser.head?, goes top = false := by
  induction waiting with
  | nil => exact ⟨[], [], rfl, by simp, by simp⟩
  | cons top waiting ih =>
    cases hgoes : goes top with
    | true =>
      obtain ⟨ops, looser, rfl, hops, hlooser⟩ := ih
      exact ⟨top :: ops, looser, rfl, List.forall_mem_cons.2 ⟨hgoes, hops⟩, hlooser⟩
    | false => exact ⟨[], top :: waiting, rfl, by simp, by simp [hgoes]⟩

lemma span_append {goes : Token → Bool} (hops : ∀ op ∈ ops, goes op = true)
    (hwaiting : ∀ top ∈ waiting.head?, goes top = false) :
    (ops ++ waiting).span goes = (ops, waiting) := by
  rw [List.span_eq_takeWhile_dropWhile, List.takeWhile_append_of_pos hops,
    List.dropWhile_append_of_pos hops]
  cases waiting with
  | nil => rw [List.takeWhile_nil, List.dropWhile_nil, List.append_nil]
  | cons top waiting =>
    have htop : ¬ goes top = true := by
      rw [hwaiting top rfl]
      exact Bool.false_ne_true
    rw [List.takeWhile_cons_of_neg htop, List.dropWhile_cons_of_neg htop, List.append_nil]

/-! ## Sending out -/

lemma postfixFrom_literal {t : Token} {rest : List Token} (ht : t.kind = .literal) :
    postfixFrom waiting (t :: rest) = t :: postfixFrom waiting rest := by
  simp only [postfixFrom, ht]

lemma postfixFrom_parenOpen {t : Token} {rest : List Token} (ht : t.kind = .parenOpen) :
    postfixFrom waiting (t :: rest) = postfixFrom (t :: waiting) rest := by
  simp only [postfixFrom, ht]

/-- An operator sends out those that bind as tightly. -/
lemma postfixFrom_operator {t : Token} {rest : List Token} (ht : t.kind.isOperator = true)
    (hops : ∀ op ∈ ops, yieldsTo t.kind.precedence op = true)
    (hwaiting : ∀ top ∈ waiting.head?, yieldsTo t.kind.precedence top = false) :
    postfixFrom (ops ++ waiting) (t :: rest) = ops ++ postfixFrom (t :: waiting) rest := by
  obtain ⟨kind, span⟩ := t
  have hspan := span_append hops hwaiting
  cases kind with
  | literal | parenOpen | parenClose => exact absurd ht Bool.false_ne_true
  | union | star | concat =>
    simp only [postfixFrom]
    rw [hspan]

/-- A closing bracket sends out what waits above the opening one, and drops both. -/
lemma postfixFrom_parenClose {opening t : Token} {rest : List Token}
    (hopening : opening.kind = .parenOpen) (ht : t.kind = .parenClose)
    (hops : ∀ op ∈ ops, op.kind ≠ .parenOpen) :
    postfixFrom (ops ++ opening :: waiting) (t :: rest) = ops ++ postfixFrom waiting rest := by
  have hspan : (ops ++ opening :: waiting).span (·.kind ≠ .parenOpen) = (ops, opening :: waiting) := by
    apply span_append
    · intro op hop
      exact decide_eq_true (hops op hop)
    · intro top htop
      rw [← Option.some.inj htop, hopening]
      rfl
  obtain ⟨kind, span⟩ := t
  subst ht
  simp only [postfixFrom]
  rw [hspan]

/-- A closing bracket without partner sends out everything and goes after it. -/
lemma postfixFrom_stray {t : Token} {rest : List Token} (ht : t.kind = .parenClose)
    (hops : ∀ op ∈ ops, op.kind ≠ .parenOpen) :
    postfixFrom ops (t :: rest) = ops ++ t :: postfixFrom [] rest := by
  have hspan : (ops ++ []).span (·.kind ≠ TokenKind.parenOpen) = (ops, []) := by
    apply span_append
    · intro op hop
      exact decide_eq_true (hops op hop)
    · intro top htop
      exact absurd htop (by simp)
  rw [List.append_nil] at hspan
  obtain ⟨kind, span⟩ := t
  subst ht
  simp only [postfixFrom]
  rw [hspan]

/-! ## One token -/

/-- The tokens that yield to an operator are not brackets. -/
lemma ne_parenOpen_of_yieldsTo {n : Nat} {op : Token} (h : yieldsTo n op = true) :
    op.kind ≠ .parenOpen := by
  rw [yieldsTo, Bool.and_eq_true, decide_eq_true_eq] at h
  exact h.1

/-- `Sends t waiting out waiting'`: the incoming `t` sends out `out` and leaves `waiting'`. -/
inductive Sends (t : Token) : List Token → List Token → List Token → Prop where
  | literal {waiting : List Token} (kind : t.kind = .literal) : Sends t waiting [t] waiting
  | operator {tighter looser : List Token} (kind : t.kind.isOperator = true)
      (above : ∀ op ∈ tighter, op.kind ≠ .parenOpen) :
      Sends t (tighter ++ looser) tighter (t :: looser)
  | opening {waiting : List Token} (kind : t.kind = .parenOpen) : Sends t waiting [] (t :: waiting)
  | closing {inner outer : List Token} {opening : Token} (kind : t.kind = .parenClose)
      (above : ∀ op ∈ inner, op.kind ≠ .parenOpen) (partner : opening.kind = .parenOpen) :
      Sends t (inner ++ opening :: outer) inner outer
  /-- a closing bracket that finds no opening one -/
  | stray {waiting : List Token} (kind : t.kind = .parenClose)
      (above : ∀ op ∈ waiting, op.kind ≠ .parenOpen) : Sends t waiting (waiting ++ [t]) []

lemma exists_sends (t : Token) (waiting : List Token) :
    ∃ out waiting', Sends t waiting out waiting' ∧
      ∀ rest, postfixFrom waiting (t :: rest) = out ++ postfixFrom waiting' rest := by
  cases hkind : t.kind with
  | literal => exact ⟨_, _, .literal hkind, fun rest => postfixFrom_literal hkind⟩
  | parenOpen => exact ⟨_, _, .opening hkind, fun rest => postfixFrom_parenOpen hkind⟩
  | parenClose =>
    obtain ⟨inner, outer, rfl, hinner, houter⟩ := exists_cut (·.kind ≠ TokenKind.parenOpen) waiting
    have hinner' : ∀ op ∈ inner, op.kind ≠ .parenOpen := fun op hop => of_decide_eq_true (hinner op hop)
    cases outer with
    | nil =>
      rw [List.append_nil]
      refine ⟨_, _, .stray hkind hinner', fun rest => ?_⟩
      rw [postfixFrom_stray hkind hinner', List.append_assoc, List.singleton_append]
    | cons opening outer =>
      have hopening : opening.kind = .parenOpen := by
        have hstays := houter opening rfl
        simpa using hstays
      exact ⟨_, _, .closing hkind hinner' hopening,
        fun rest => postfixFrom_parenClose hopening hkind hinner'⟩
  | union | star | concat =>
    have hoperator : t.kind.isOperator = true := by
      rw [hkind]
      rfl
    obtain ⟨tighter, looser, rfl, htighter, hlooser⟩ := exists_cut (yieldsTo t.kind.precedence) waiting
    exact ⟨_, _, .operator hoperator fun op hop => ne_parenOpen_of_yieldsTo (htighter op hop),
      fun rest => postfixFrom_operator hoperator htighter hlooser⟩

/-! ## What is kept -/

lemma Sends.perm {t : Token} {out waiting' : List Token} (h : Sends t waiting out waiting') :
    ((out ++ waiting').filter (!·.kind.isParen)).Perm ((waiting ++ [t]).filter (!·.kind.isParen)) := by
  cases h with
  | literal kind => exact List.perm_append_comm.filter _
  | @operator _ looser kind above =>
    have hperm : (out ++ t :: looser).Perm (out ++ looser ++ [t]) := by
      rw [List.append_assoc]
      exact (List.perm_append_singleton t looser).symm.append_left out
    exact hperm.filter _
  | opening kind => exact (List.perm_append_singleton t waiting).symm.filter _
  | @closing inner outer opening kind above partner =>
    have hopening : (!opening.kind.isParen) = false := by rw [partner]; rfl
    have hclosing : (!t.kind.isParen) = false := by rw [kind]; rfl
    simp [hopening, hclosing]
  | stray kind above => rw [List.append_nil]

/-- Tokens other than brackets are kept, each as often as it came in. -/
theorem postfixFrom_perm (waiting ts : List Token) :
    ((postfixFrom waiting ts).filter (!·.kind.isParen)).Perm
      ((waiting ++ ts).filter (!·.kind.isParen)) := by
  induction ts generalizing waiting with
  | nil =>
    rw [List.append_nil]
    exact .refl _
  | cons t ts ih =>
    obtain ⟨out, waiting', hsends, hsent⟩ := exists_sends t waiting
    have hrest := (ih waiting').append_left (out.filter (!·.kind.isParen))
    have hstep := hsends.perm.append_right (ts.filter (!·.kind.isParen))
    rw [← List.filter_append, ← List.filter_append, ← List.append_assoc] at hrest
    rw [← List.filter_append, ← List.filter_append, List.append_assoc waiting] at hstep
    rw [hsent]
    exact hrest.trans hstep

/-- A literal goes out at once, and nothing else brings one out. -/
lemma Sends.filter_literal {t : Token} {out waiting' : List Token} (h : Sends t waiting out waiting')
    (hwaiting : ∀ w ∈ waiting, w.kind ≠ .literal) :
    (∀ w ∈ waiting', w.kind ≠ .literal) ∧ out.filter (·.kind = .literal) = [t].filter (·.kind = .literal) := by
  have hnone : ∀ us : List Token, (∀ u ∈ us, u.kind ≠ .literal) → us.filter (·.kind = .literal) = [] := by
    intro us hus
    rw [List.filter_eq_nil_iff]
    intro u hu
    rw [decide_eq_true_eq]
    exact hus u hu
  cases h with
  | literal kind => exact ⟨hwaiting, rfl⟩
  | operator kind above =>
    obtain ⟨htighter, hlooser⟩ := List.forall_mem_append.1 hwaiting
    have ht : t.kind ≠ .literal := by
      intro hkind
      rw [hkind] at kind
      exact absurd kind Bool.false_ne_true
    rw [hnone out htighter, hnone [t] (List.forall_mem_singleton.2 ht)]
    exact ⟨List.forall_mem_cons.2 ⟨ht, hlooser⟩, rfl⟩
  | opening kind =>
    have ht : t.kind ≠ .literal := by rw [kind]; decide
    rw [hnone [t] (List.forall_mem_singleton.2 ht)]
    exact ⟨List.forall_mem_cons.2 ⟨ht, hwaiting⟩, rfl⟩
  | closing kind above partner =>
    obtain ⟨hinner, houter⟩ := List.forall_mem_append.1 hwaiting
    have ht : t.kind ≠ .literal := by rw [kind]; decide
    rw [hnone out hinner, hnone [t] (List.forall_mem_singleton.2 ht)]
    exact ⟨(List.forall_mem_cons.1 houter).2, rfl⟩
  | stray kind above =>
    rw [List.filter_append, hnone waiting hwaiting, List.nil_append]
    exact ⟨by simp, rfl⟩

/-- Literals keep their order. -/
theorem filter_literal_postfixFrom {waiting : List Token} (ts : List Token)
    (hwaiting : ∀ w ∈ waiting, w.kind ≠ .literal) :
    (postfixFrom waiting ts).filter (·.kind = .literal) = ts.filter (·.kind = .literal) := by
  induction ts generalizing waiting with
  | nil =>
    rw [postfixFrom, List.filter_nil, List.filter_eq_nil_iff]
    intro w hw
    rw [decide_eq_true_eq]
    exact hwaiting w hw
  | cons t ts ih =>
    obtain ⟨out, waiting', hsends, hsent⟩ := exists_sends t waiting
    obtain ⟨hwaiting', hout⟩ := hsends.filter_literal hwaiting
    rw [hsent, List.filter_append, hout, ih hwaiting', ← List.filter_append, List.singleton_append]

end Token

end RegexNfa
