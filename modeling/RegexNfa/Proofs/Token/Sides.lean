import Mathlib.Data.List.Basic
import Mathlib.Data.List.Induction
import RegexNfa.Proofs.Token.Operands
import RegexNfa.Token.Sides

/-!
# Where an operand is missing

A stretch behind a binary operator in which the brackets are paired, and which either does not end with an operand or
makes a slip, has an operator without an operand in it or right before it (`exists_lacking`).  Mostly it is the operator
at the slip or at the end.  Where the slip is an empty pair of brackets, all pairs around it are gone through from the
inside out: the tokens next to a pair without a literal are brackets, which make a wider such pair, or operators, which
lack an operand there (`exists_lacking_of_bare`).
-/

namespace RegexNfa

namespace Token

variable {ends : Bool} {t o c : Token} {ts us xs ys inner : List Token}

/-! ## One partner for each bracket -/

lemma Balanced.unpaired_eq_nil (h : Balanced ts) : unpaired id [] ts = [] := by
  have hnone : unpaired id [] (ts ++ []) = unpaired id [] [] := unpaired_of_balanced h (List.map_id ts)
  rw [List.append_nil] at hnone
  exact hnone

/-- A bracket that nothing closes stands open. -/
lemma unpaired_opening_ne_nil (ho : o.kind = .parenOpen) (h : Balanced inner) (xs : List Token) :
    unpaired id [] (xs ++ o :: inner) ≠ [] := by
  obtain ⟨strays, opens, _, happend⟩ := unpaired_append id [] xs
  have hinner : unpaired id (o :: opens) (inner ++ []) = unpaired id (o :: opens) [] :=
    unpaired_of_balanced h (List.map_id inner)
  rw [List.append_nil] at hinner
  rw [happend, unpaired_opening ho, hinner]
  simp [unpaired]

/-- A bracket that closes nothing is a stray one. -/
lemma unpaired_closing_ne_nil (hc : c.kind = .parenClose) (h : Balanced inner) (ys : List Token) :
    unpaired id [] (inner ++ c :: ys) ≠ [] := by
  rw [unpaired_of_balanced h (List.map_id inner), unpaired_stray hc]
  exact List.cons_ne_nil _ _

/-- The bracket that closes a group is settled by what opens it. -/
lemma Balanced.eq_of_closing {inner' ys' : List Token} {c' : Token} (h : Balanced inner) (h' : Balanced inner')
    (hc : c.kind = .parenClose) (hc' : c'.kind = .parenClose)
    (heq : inner ++ c :: ys = inner' ++ c' :: ys') : inner = inner' := by
  rcases List.append_eq_append_iff.1 heq with ⟨more, hmore, hrest⟩ | ⟨more, hmore, hrest⟩
  · cases more with
    | nil => rw [hmore, List.append_nil]
    | cons d more =>
      obtain ⟨rfl, _⟩ := List.cons.inj hrest
      rw [hmore] at h'
      exact absurd h'.unpaired_eq_nil (unpaired_closing_ne_nil hc h more)
  · cases more with
    | nil => rw [hmore, List.append_nil]
    | cons d more =>
      obtain ⟨rfl, _⟩ := List.cons.inj hrest
      rw [hmore] at h
      exact absurd h.unpaired_eq_nil (unpaired_closing_ne_nil hc' h' more)

/-- The bracket that opens a group is settled by what closes it. -/
lemma Balanced.eq_of_opening {inner' xs' : List Token} {o' : Token} (h : Balanced inner) (h' : Balanced inner')
    (ho : o.kind = .parenOpen) (ho' : o'.kind = .parenOpen)
    (heq : xs ++ o :: inner = xs' ++ o' :: inner') : inner = inner' := by
  rcases List.append_eq_append_iff.1 heq with ⟨more, hmore, hrest⟩ | ⟨more, hmore, hrest⟩
  · cases more with
    | nil => exact (List.cons.inj hrest).2
    | cons d more =>
      obtain ⟨rfl, hinner⟩ := List.cons.inj hrest
      rw [hinner] at h
      exact absurd h.unpaired_eq_nil (unpaired_opening_ne_nil ho' h' more)
  · cases more with
    | nil => exact (List.cons.inj hrest).2.symm
    | cons d more =>
      obtain ⟨rfl, hinner⟩ := List.cons.inj hrest
      rw [hinner] at h'
      exact absurd h'.unpaired_eq_nil (unpaired_opening_ne_nil ho h more)

/-- A pair of brackets around no literal. -/
inductive BareGroup : List Token → Prop where
  | intro {opening closing : Token} {inner : List Token} (isOpen : opening.kind = .parenOpen)
      (isClose : closing.kind = .parenClose) (within : Balanced inner)
      (bare : ∀ u ∈ inner, u.kind ≠ .literal) : BareGroup (opening :: (inner ++ [closing]))

/-- A pair around a bare group is one. -/
lemma BareGroup.wider (h : BareGroup us) (ho : o.kind = .parenOpen) (hc : c.kind = .parenClose) :
    BareGroup (o :: (us ++ [c])) := by
  obtain ⟨isOpen, isClose, within, bare⟩ := h
  refine .intro ho hc (.group isOpen isClose within .nil) ?_
  intro u hu
  rcases List.mem_cons.1 hu with rfl | hu
  · rw [isOpen]
    decide
  rcases List.mem_append.1 hu with hu | hu
  · exact bare u hu
  · rw [List.mem_singleton.1 hu, isClose]
    decide

lemma BareGroup.balanced (h : BareGroup us) : Balanced us := by
  obtain ⟨isOpen, isClose, within, _⟩ := h
  exact .group isOpen isClose within .nil

/-! ## What the two tests look at -/

lemma LiteralGroup.split {i j : Nat} (h : LiteralGroup ts i j) :
    ∃ before o inner c after, ts = before ++ o :: (inner ++ c :: after) ∧ o.kind = .parenOpen ∧
      c.kind = .parenClose ∧ Balanced inner ∧ i = before.length ∧ j = before.length + 1 + inner.length ∧
      ∃ u ∈ inner, u.kind = .literal := by
  obtain ⟨⟨before, o, inner, c, after, rfl, ho, hc, hinner, rfl, rfl⟩, k, u, hk, hkj, hu, hliteral⟩ := h
  refine ⟨before, o, inner, c, after, rfl, ho, hc, hinner, rfl, rfl, u, ?_, hliteral⟩
  obtain ⟨n, rfl⟩ := Nat.exists_eq_add_of_lt hk
  have hplace : (before ++ o :: (inner ++ c :: after))[before.length + n + 1]? = (inner ++ c :: after)[n]? := by
    rw [List.getElem?_append_right (by omega)]
    have hsub : before.length + n + 1 - before.length = n + 1 := by omega
    rw [hsub, List.getElem?_cons_succ]
  rw [hplace, List.getElem?_append_left (by omega)] at hu
  exact List.mem_of_getElem? hu

/-- A group around a literal has the literal in it. -/
lemma literalGroup_of_mem {before after : List Token} (ho : o.kind = .parenOpen) (hc : c.kind = .parenClose)
    (hinner : Balanced inner) (ht : t ∈ inner) (hliteral : t.kind = .literal) :
    LiteralGroup (before ++ o :: (inner ++ c :: after)) before.length (before.length + 1 + inner.length) := by
  refine ⟨⟨before, o, inner, c, after, rfl, ho, hc, hinner, rfl, rfl⟩, ?_⟩
  obtain ⟨n, hn, rfl⟩ := List.mem_iff_getElem.1 ht
  refine ⟨before.length + 1 + n, _, by omega, by omega, ?_, hliteral⟩
  rw [List.getElem?_append_right (by omega)]
  have hsub : before.length + 1 + n - before.length = n + 1 := by omega
  rw [hsub, List.getElem?_cons_succ, List.getElem?_append_left hn, List.getElem?_eq_getElem hn]

lemma endsAfter_append (ends : Bool) (ts us : List Token) :
    endsAfter ends (ts ++ us) = endsAfter (endsAfter ends ts) us := by
  induction ts generalizing ends with
  | nil => rfl
  | cons t ts ih => exact ih t.kind.endsOperand

/-- What stands right before a position behind a stretch is the end of the stretch. -/
lemma exists_concat_of_operandBefore (h : OperandBefore (xs ++ ys) xs.length) :
    ∃ zs u, xs = zs ++ [u] ∧ (u.kind = .literal ∨ u.kind = .star ∨ u.kind = .parenClose ∧
      ∃ i, LiteralGroup (xs ++ ys) i zs.length) := by
  obtain ⟨j, u, hj, hu, hkind⟩ := h
  rcases List.eq_nil_or_concat' xs with rfl | ⟨zs, v, rfl⟩
  · exact absurd hj (by simp)
  · rw [List.length_append, List.length_singleton, Nat.add_right_cancel_iff] at hj
    subst hj
    rw [List.append_assoc, List.getElem?_append_right (Nat.le_refl _), Nat.sub_self] at hu
    obtain rfl := Option.some.inj hu
    exact ⟨zs, v, rfl, hkind⟩

/-- No expression ends where no operand does. -/
lemma not_operandBefore_of_endsAfter (hends : endsAfter false xs = false) (ys : List Token) :
    ¬ OperandBefore (xs ++ ys) xs.length := by
  intro h
  obtain ⟨zs, u, rfl, hkind⟩ := exists_concat_of_operandBefore h
  rw [endsAfter_append] at hends
  have hu : u.kind.endsOperand = false := hends
  rcases hkind with hkind | hkind | ⟨hkind, _⟩
  all_goals
    rw [hkind] at hu
    exact absurd hu (by decide)

/-- No expression ends with a bare group. -/
lemma not_operandBefore_of_bare (h : BareGroup us) (xs ys : List Token) :
    ¬ OperandBefore (xs ++ us ++ ys) (xs ++ us).length := by
  intro hbefore
  obtain ⟨zs, u, heq, hkind⟩ := exists_concat_of_operandBefore hbefore
  obtain @⟨o, c, inner, ho, hc, hinner, hbare⟩ := h
  rw [← List.cons_append, ← List.append_assoc] at heq
  obtain ⟨hzs, hu⟩ := List.append_inj' heq rfl
  obtain rfl := List.singleton_inj.1 hu
  rcases hkind with hkind | hkind | ⟨_, i, hgroup⟩
  · rw [hc] at hkind
    exact absurd hkind (by decide)
  · rw [hc] at hkind
    exact absurd hkind (by decide)
  · obtain ⟨before, o', inner', c', after, hts, ho', _, hinner', _, hlength, u, hu, hliteral⟩ := hgroup.split
    -- what stands before the closing bracket is the same stretch, cut at its opening bracket
    have hsame : xs ++ o :: inner = before ++ o' :: inner' := by
      have hall : (xs ++ o :: inner) ++ c :: ys = (before ++ o' :: inner') ++ c' :: after := by
        simpa using hts
      refine (List.append_inj hall ?_).1
      rw [← hzs] at hlength
      rw [hlength, List.length_append, List.length_cons]
      omega
    rw [hinner.eq_of_opening hinner' ho ho' hsame] at hbare
    exact hbare u hu hliteral

lemma getElem?_next (xs : List Token) (t : Token) (ys : List Token) :
    (xs ++ t :: ys)[xs.length + 1]? = ys.head? := by
  rw [List.getElem?_append_right (Nat.le_add_right _ _), Nat.add_sub_cancel_left, List.getElem?_cons_succ,
    List.head?_eq_getElem?]

/-- No expression begins where no operand does. -/
lemma not_operandAfter_of_head (h : ∀ u ∈ ys.head?, u.kind.startsOperand = false) (xs : List Token) (t : Token) :
    ¬ OperandAfter (xs ++ t :: ys) xs.length := by
  intro hafter
  obtain ⟨u, hu, hkind⟩ := hafter
  rw [getElem?_next] at hu
  have hstarts := h u hu
  rcases hkind with hkind | ⟨hkind, _⟩
  all_goals
    rw [hkind] at hstarts
    exact absurd hstarts (by decide)

/-- No expression begins with a bare group. -/
lemma not_operandAfter_of_bare (h : BareGroup us) (xs ys : List Token) (t : Token) :
    ¬ OperandAfter (xs ++ t :: (us ++ ys)) xs.length := by
  intro hafter
  obtain ⟨u, hu, hkind⟩ := hafter
  obtain @⟨o, c, inner, ho, hc, hinner, hbare⟩ := h
  rw [getElem?_next] at hu
  obtain rfl := Option.some.inj hu
  rcases hkind with hkind | ⟨_, j, hgroup⟩
  · rw [ho] at hkind
    exact absurd hkind (by decide)
  · obtain ⟨before, o', inner', c', after, hts, _, hc', hinner', hlength, _, u, hu, hliteral⟩ := hgroup.split
    have hsame : inner ++ c :: ys = inner' ++ c' :: after := by
      have hall : (xs ++ [t]) ++ o :: (inner ++ c :: ys) = before ++ o' :: (inner' ++ c' :: after) := by
        simpa using hts
      exact (List.cons.inj (List.append_inj hall (by simpa using hlength)).2).2
    rw [hinner.eq_of_closing hinner' hc hc' hsame] at hbare
    exact hbare u hu hliteral

/-! ## Marked tokens -/

/-- Whether the tokens can stand there when `ends` says whether an operand ends before them: nothing that starts an
operand follows one, and a concatenation does. -/
def Placed (ends : Bool) : List Token → Prop
  | [] => True
  | t :: ts => (t.kind.startsOperand = true → ends = false) ∧ (t.kind = .concat → ends = true) ∧
      Placed t.kind.endsOperand ts

lemma placed_append : Placed ends (ts ++ us) ↔ Placed ends ts ∧ Placed (endsAfter ends ts) us := by
  induction ts generalizing ends with
  | nil => simp [Placed, endsAfter]
  | cons t ts ih => simp [Placed, endsAfter, ih, and_assoc]

lemma placed_joined (ends : Bool) (ht : t.kind ≠ .concat) : Placed ends (joined ends t) := by
  unfold joined
  by_cases hjoin : (ends && t.kind.startsOperand) = true
  · rw [if_pos hjoin]
    refine ⟨fun hstarts => absurd hstarts (by simp [marker, TokenKind.startsOperand]),
      fun _ => (Bool.and_eq_true_iff.1 hjoin).1, fun _ => rfl, fun hkind => absurd hkind ht, trivial⟩
  · rw [if_neg hjoin]
    refine ⟨fun hstarts => ?_, fun hkind => absurd hkind ht, trivial⟩
    simpa [hstarts] using hjoin

/-- Marking puts tokens where they can stand. -/
lemma placed_markAfter (hconcat : ∀ t ∈ ts, t.kind ≠ .concat) : Placed ends (markAfter ends ts) := by
  induction ts generalizing ends with
  | nil => trivial
  | cons t ts ih =>
    obtain ⟨ht, hts⟩ := List.forall_mem_cons.1 hconcat
    have hends : endsAfter ends (joined ends t) = t.kind.endsOperand := by
      unfold joined
      split <;> rfl
    rw [markAfter, placed_append, hends]
    exact ⟨placed_joined ends ht, ih hts⟩

/-- Where tokens can stand, literals and slips balance binary operators, up to the operands that end before and
after. -/
theorem literals_add_slips_of_placed (h : Placed ends ts) :
    literals ts + slips ends ts + ends.toNat = binaries ts + (endsAfter ends ts).toNat := by
  induction ts generalizing ends with
  | nil => rfl
  | cons t ts ih =>
    obtain ⟨hstarts, hconcat, hrest⟩ := h
    have hlater := ih hrest
    have hfirst : literals [t] + slip ends t + ends.toNat = binaries [t] + t.kind.endsOperand.toNat := by
      obtain ⟨kind, span⟩ := t
      cases kind with
      | literal | parenOpen =>
        rw [hstarts rfl]
        rfl
      | concat =>
        rw [hconcat rfl]
        rfl
      | union | star | parenClose => cases ends <;> rfl
    rw [← List.singleton_append, literals_append, binaries_append, List.singleton_append, slips, endsAfter]
    omega

/-! ## An operator that lacks an operand -/

lemma exists_slip (h : 0 < slips ends ts) :
    ∃ xs v ys, ts = xs ++ v :: ys ∧ v.kind.followsOperand = true ∧ endsAfter ends xs = false := by
  induction ts generalizing ends with
  | nil => exact absurd h (Nat.lt_irrefl 0)
  | cons t ts ih =>
    by_cases hslip : (t.kind.followsOperand && !ends) = true
    · obtain ⟨hfollows, hends⟩ := Bool.and_eq_true_iff.1 hslip
      refine ⟨[], t, ts, rfl, hfollows, ?_⟩
      simpa [endsAfter] using hends
    · rw [slips, slip, if_neg hslip, Nat.zero_add] at h
      obtain ⟨xs, v, ys, rfl, hfollows, hends⟩ := ih h
      exact ⟨t :: xs, v, ys, rfl, hfollows, hends⟩

/-- Some operator of the stretch lacks an operand, where it stands between `before` and `after`. -/
def LacksWithin (before stretch after : List Token) : Prop :=
  ∃ xs v ys, stretch = xs ++ v :: ys ∧ LacksOperand (before ++ stretch ++ after) (before ++ xs).length

variable {before after : List Token} {v : Token}

lemma LacksWithin.left (xs : List Token) (hv : v.kind.isOperator = true)
    (h : ¬ OperandBefore ((before ++ xs) ++ (v :: ys ++ after)) (before ++ xs).length) :
    LacksWithin before (xs ++ v :: ys) after := by
  have hts : before ++ (xs ++ v :: ys) ++ after = (before ++ xs) ++ (v :: ys ++ after) := by simp
  refine ⟨xs, v, ys, rfl, v, ?_, hv, .inl ?_⟩
  · rw [hts, List.getElem?_append_right (Nat.le_refl _), Nat.sub_self]
    rfl
  · rw [hts]
    exact h

lemma LacksWithin.right (xs : List Token) (hv : v.kind.isBinary = true)
    (h : ¬ OperandAfter ((before ++ xs) ++ v :: (ys ++ after)) (before ++ xs).length) :
    LacksWithin before (xs ++ v :: ys) after := by
  have hts : before ++ (xs ++ v :: ys) ++ after = (before ++ xs) ++ v :: (ys ++ after) := by simp
  have hkind : v.kind.isOperator = true ∧ v.kind ≠ .star := by
    cases hkind : v.kind <;> simp_all [TokenKind.isBinary, TokenKind.isOperator]
  refine ⟨xs, v, ys, rfl, v, ?_, hkind.1, .inr ⟨hkind.2, ?_⟩⟩
  · rw [hts, List.getElem?_append_right (Nat.le_refl _), Nat.sub_self]
    rfl
  · rw [hts]
    exact h

/-- No operand ends right before a bare group, and one may end right after it. -/
lemma BareGroup.placed (h : BareGroup us) (hplaced : Placed ends (us ++ ys)) : ends = false ∧ Placed true ys := by
  obtain @⟨o, c, inner, ho, hc, _, _⟩ := h
  have hends : endsAfter ends (o :: (inner ++ [c])) = true := by
    rw [← List.cons_append, endsAfter_append, endsAfter, hc]
    rfl
  obtain ⟨hgroup, hrest⟩ := placed_append.1 hplaced
  rw [hends] at hrest
  refine ⟨hgroup.1 ?_, hrest⟩
  rw [ho]
  rfl

/-- The operator that lacks an operand is the first token of the stretch, or stands behind it. -/
lemma LacksWithin.first_or_behind (h : LacksWithin before (t :: ts) after) :
    LacksOperand (before ++ t :: ts ++ after) before.length ∨
      ∃ j u, before.length < j ∧ (before ++ t :: ts ++ after)[j]? = some u ∧
        LacksOperand (before ++ t :: ts ++ after) j ∧ u ∈ ts ∧ u.kind.isOperator = true := by
  obtain ⟨xs, v, ys, hsplit, hlacks⟩ := h
  cases xs with
  | nil =>
    rw [List.append_nil] at hlacks
    exact .inl hlacks
  | cons x xs =>
    rw [List.cons_append] at hsplit
    obtain ⟨rfl, rfl⟩ := List.cons.inj hsplit
    have hplace : (before ++ t :: (xs ++ v :: ys) ++ after)[(before ++ t :: xs).length]? = some v := by simp
    have ⟨u, hu, hoperator, _⟩ := hlacks
    rw [hplace] at hu
    obtain rfl := Option.some.inj hu
    refine .inr ⟨_, v, ?_, hplace, hlacks, by simp, hoperator⟩
    rw [List.length_append, List.length_cons]
    omega

lemma endsOperand_of_isBinary (ht : t.kind.isBinary = true) : t.kind.endsOperand = false := by
  cases hkind : t.kind <;> simp_all [TokenKind.isBinary, TokenKind.endsOperand]

/-- Around a bare group behind a binary operator some operator lacks an operand. -/
lemma exists_lacking_of_bare (ht : t.kind.isBinary = true) (hbare : BareGroup us)
    (hplaced : Placed false (xs ++ us ++ ys)) (hpaired : unpaired id [] (xs ++ us ++ ys) = []) :
    LacksWithin before (t :: (xs ++ us ++ ys)) after := by
  -- each round moves one bracket from either side into the group
  induction xs using List.reverseRecOn generalizing us ys with
  | nil =>
    have hafter := not_operandAfter_of_bare hbare before (ys ++ after) t
    rw [← List.append_assoc] at hafter
    refine LacksWithin.right [] ht ?_
    rw [List.append_nil]
    exact hafter
  | append_singleton xs p ih =>
    have hplaced' : Placed (endsAfter false xs) (p :: (us ++ ys)) := by
      rw [List.append_assoc, List.append_assoc, placed_append] at hplaced
      exact hplaced.2
    obtain ⟨hp, hbehind⟩ := hbare.placed hplaced'.2.2
    have hsplit : t :: (xs ++ [p] ++ us ++ ys) = (t :: xs) ++ p :: (us ++ ys) := by simp
    cases hkind : p.kind with
    | literal | star | parenClose =>
      rw [hkind] at hp
      exact absurd hp (by decide)
    | union | concat =>
      have hafter := not_operandAfter_of_bare hbare (before ++ t :: xs) (ys ++ after) p
      rw [← List.append_assoc us] at hafter
      rw [hsplit]
      exact .right (t :: xs) (by rw [hkind]; rfl) hafter
    | parenOpen =>
      cases ys with
      | nil =>
        have hopen := unpaired_opening_ne_nil hkind hbare.balanced xs
        rw [List.append_nil, List.append_assoc, List.singleton_append] at hpaired
        exact absurd hpaired hopen
      | cons y ys =>
        cases hy : y.kind with
        | literal | parenOpen =>
          have hstarts := hbehind.1
          rw [hy] at hstarts
          exact absurd (hstarts rfl) (by decide)
        | parenClose =>
          have hsame : xs ++ [p] ++ us ++ y :: ys = xs ++ p :: (us ++ [y]) ++ ys := by simp
          rw [hsame] at hplaced hpaired ⊢
          exact ih (hbare.wider hkind hy) hplaced hpaired
        | union | star | concat =>
          have hbefore := not_operandBefore_of_bare hbare (before ++ t :: (xs ++ [p])) (y :: ys ++ after)
          have hsame : before ++ t :: (xs ++ [p]) ++ us = before ++ (t :: (xs ++ [p] ++ us)) := by simp
          rw [hsame] at hbefore
          exact .left (t :: (xs ++ [p] ++ us)) (by rw [hy]; rfl) hbefore

/-- A stretch that does not end with an operand. -/
lemma exists_lacking_of_end (ht : t.kind.isBinary = true) (hpaired : unpaired id [] ts = [])
    (hafter : ∀ u ∈ after.head?, u.kind.startsOperand = false) (hends : endsAfter false ts = false) :
    LacksWithin before (t :: ts) after := by
  rcases List.eq_nil_or_concat' ts with rfl | ⟨xs, u, rfl⟩
  · refine LacksWithin.right [] ht ?_
    rw [List.append_nil]
    exact not_operandAfter_of_head hafter before t
  · rw [endsAfter_append] at hends
    have hu : u.kind.endsOperand = false := hends
    cases hkind : u.kind with
    | literal | star | parenClose =>
      rw [hkind] at hu
      exact absurd hu (by decide)
    | parenOpen => exact absurd hpaired (unpaired_opening_ne_nil hkind .nil xs)
    | union | concat => exact .right (t :: xs) (by rw [hkind]; rfl) (not_operandAfter_of_head hafter _ u)

/-- A stretch that makes a slip. -/
lemma exists_lacking_of_slip (ht : t.kind.isBinary = true) (hplaced : Placed false ts)
    (hpaired : unpaired id [] ts = []) (hslips : 0 < slips false ts) : LacksWithin before (t :: ts) after := by
  obtain ⟨xs, v, ys, rfl, hfollows, hends⟩ := exists_slip hslips
  cases hkind : v.kind with
  | literal | parenOpen | concat =>
    rw [hkind] at hfollows
    exact absurd hfollows (by decide)
  | union | star =>
    have hstretch : endsAfter false (before ++ t :: xs) = false := by
      rw [endsAfter_append, endsAfter, endsOperand_of_isBinary ht, hends]
    exact .left (t :: xs) (by rw [hkind]; rfl) (not_operandBefore_of_endsAfter hstretch _)
  | parenClose =>
    rcases List.eq_nil_or_concat' xs with rfl | ⟨xs, u, rfl⟩
    · exact absurd hpaired (unpaired_closing_ne_nil hkind .nil ys)
    · -- what stands before the closing bracket is an operator, or the other bracket of an empty pair
      rw [endsAfter_append] at hends
      have hu : u.kind.endsOperand = false := hends
      cases hkind' : u.kind with
      | literal | star | parenClose =>
        rw [hkind'] at hu
        exact absurd hu (by decide)
      | union | concat =>
        have hnext : ∀ w ∈ (v :: ys ++ after).head?, w.kind.startsOperand = false := by
          intro w hw
          rw [← Option.some.inj hw, hkind]
          rfl
        have hsame : t :: (xs ++ [u] ++ v :: ys) = (t :: xs) ++ u :: (v :: ys) := by simp
        rw [hsame]
        exact .right (t :: xs) (by rw [hkind']; rfl) (not_operandAfter_of_head hnext _ u)
      | parenOpen =>
        have hbare : BareGroup [u, v] := @BareGroup.intro u v [] hkind' hkind .nil (by simp)
        have hsame : xs ++ [u] ++ v :: ys = xs ++ [u, v] ++ ys := by simp
        rw [hsame] at hplaced hpaired ⊢
        exact exists_lacking_of_bare ht hbare hplaced hpaired

/-- A stretch behind a binary operator in which the brackets are paired has an operator that lacks an operand, or the
operator in front of it lacks one, unless it makes no slip and ends with an operand. -/
theorem exists_lacking (ht : t.kind.isBinary = true) (hplaced : Placed false ts) (hpaired : unpaired id [] ts = [])
    (hafter : ∀ u ∈ after.head?, u.kind.startsOperand = false)
    (hwrong : endsAfter false ts = false ∨ 0 < slips false ts) : LacksWithin before (t :: ts) after := by
  rcases hwrong with hends | hslips
  · exact exists_lacking_of_end ht hpaired hafter hends
  · exact exists_lacking_of_slip ht hplaced hpaired hslips

end Token

end RegexNfa
