import RegexNfa.Proofs.Token.Unpaired
import RegexNfa.Token.PostfixWord

/-!
# Operands and the operators between them

Assembling looks at a count of operands only.  A literal adds one and a binary operator takes one away, so
the count at the end is that of literals over binary operators (`depthAfter?_add_binaries`), in whatever
order they come.

A `slip` is an operator or closing bracket without an operand right before it.  Marking writes a
concatenation wherever one operand follows another, so reading on with every operand joined to what stands
before it keeps literals and slips in balance with binary operators (`literals_add_slips`).  Together: the
count can never come out above one, and it comes out at one exactly if there is no slip and the text ends
with an operand.
-/

namespace RegexNfa

namespace TokenKind

/-- Stands after an operand. -/
def followsOperand : TokenKind → Bool
  | union | star | parenClose => true
  | _ => false

/-- Joins two operands. -/
def isBinary : TokenKind → Bool
  | union | concat => true
  | _ => false

end TokenKind

namespace Token

variable {ends : Bool} {t : Token} {ts us : List Token}

/-- How many operands the tokens add. -/
def literals (ts : List Token) : Nat :=
  ts.countP (·.kind = .literal)

/-- How many pairs of operands the tokens join. -/
def binaries (ts : List Token) : Nat :=
  ts.countP (·.kind.isBinary)

@[simp] lemma literals_append (ts us : List Token) : literals (ts ++ us) = literals ts + literals us :=
  List.countP_append

@[simp] lemma binaries_append (ts us : List Token) : binaries (ts ++ us) = binaries ts + binaries us :=
  List.countP_append

/-- Whether an operand ends right after the tokens, if `ends` says whether one ends before them. -/
def endsAfter (ends : Bool) : List Token → Bool
  | [] => ends
  | t :: ts => endsAfter t.kind.endsOperand ts

/-- One if the token lacks an operand right before it. -/
def slip (ends : Bool) (t : Token) : Nat :=
  if t.kind.followsOperand && !ends then 1 else 0

/-- How many of the tokens lack an operand right before them. -/
def slips (ends : Bool) : List Token → Nat
  | [] => 0
  | t :: ts => slip ends t + slips t.kind.endsOperand ts

/-! ## Marking after an operand -/

/-- The token with the concatenation that belongs in front of it. -/
def joined (ends : Bool) (t : Token) : List Token :=
  if ends && t.kind.startsOperand then [marker t, t] else [t]

/-- The marked tokens when an operand may end before them. -/
def markAfter (ends : Bool) : List Token → List Token
  | [] => []
  | t :: ts => joined ends t ++ markAfter t.kind.endsOperand ts

lemma cons_markAfter (t : Token) (ts : List Token) :
    t :: markAfter t.kind.endsOperand ts = mark (t :: ts) := by
  induction ts generalizing t with
  | nil => rfl
  | cons u ts ih =>
    rw [mark_cons_cons, ← ih u, markAfter, between, TokenKind.juxtaposed, joined]
    split <;> rfl

lemma markAfter_false (ts : List Token) : markAfter false ts = mark ts := by
  cases ts with
  | nil => rfl
  | cons t ts =>
    rw [← cons_markAfter, markAfter, joined, Bool.false_and, if_neg Bool.false_ne_true,
      List.singleton_append]

/-! ## The balance of a text -/

lemma literals_joined (ends : Bool) (ht : t.kind ≠ .concat) :
    literals (joined ends t) + slip ends t + ends.toNat =
      binaries (joined ends t) + t.kind.endsOperand.toNat := by
  obtain ⟨kind, span⟩ := t
  cases kind with
  | concat => exact absurd rfl ht
  | literal | union | star | parenOpen | parenClose => cases ends <;> rfl

/-- Literals and slips balance binary operators, up to the operands that end before and after. -/
theorem literals_add_slips (ends : Bool) (hconcat : ∀ t ∈ ts, t.kind ≠ .concat) :
    literals (markAfter ends ts) + slips ends ts + ends.toNat =
      binaries (markAfter ends ts) + (endsAfter ends ts).toNat := by
  induction ts generalizing ends with
  | nil => rfl
  | cons t ts ih =>
    obtain ⟨ht, hts⟩ := List.forall_mem_cons.1 hconcat
    have hfirst := literals_joined ends ht
    have hrest := ih t.kind.endsOperand hts
    rw [markAfter, literals_append, binaries_append, slips, endsAfter]
    omega

/-! ## The count of a stream -/

lemma depth?_add_binaries {n m : Nat} (h : TokenKind.depth? n t.kind = some m) :
    m + binaries [t] = n + literals [t] ∧ 0 < m ∧ t.kind.isParen = false := by
  obtain ⟨kind, span⟩ := t
  cases kind with
  | literal =>
    obtain rfl := Option.some.inj h
    exact ⟨rfl, Nat.succ_pos n, rfl⟩
  | star =>
    rw [TokenKind.depth?, Option.ite_none_right_eq_some] at h
    obtain ⟨hle, hm⟩ := h
    obtain rfl := Option.some.inj hm
    exact ⟨rfl, hle, rfl⟩
  | concat | union =>
    rw [TokenKind.depth?, Option.ite_none_right_eq_some] at h
    obtain ⟨hle, hm⟩ := h
    obtain rfl := Option.some.inj hm
    refine ⟨?_, by omega, rfl⟩
    show n - 1 + 1 = n
    omega
  | parenOpen | parenClose => exact absurd h (by simp [TokenKind.depth?])

lemma depthAfter?_cons {n m : Nat} (h : TokenKind.depthAfter? n ((t :: ts).map Token.kind) = some m) :
    ∃ k, TokenKind.depth? n t.kind = some k ∧ TokenKind.depthAfter? k (ts.map Token.kind) = some m :=
  Option.bind_eq_some_iff.1 h

/-- The count at the end is that of literals over binary operators. -/
theorem depthAfter?_add_binaries {n m : Nat}
    (h : TokenKind.depthAfter? n (ts.map Token.kind) = some m) :
    m + binaries ts = n + literals ts := by
  induction ts generalizing n with
  | nil =>
    obtain rfl := Option.some.inj h
    rfl
  | cons t ts ih =>
    obtain ⟨k, ht, hts⟩ := depthAfter?_cons h
    have hfirst := (depth?_add_binaries ht).1
    have hrest := ih hts
    rw [← List.singleton_append, binaries_append, literals_append]
    omega

lemma depthAfter?_brackets {n m : Nat} (h : TokenKind.depthAfter? n (ts.map Token.kind) = some m) :
    brackets ts = [] := by
  induction ts generalizing n with
  | nil => rfl
  | cons t ts ih =>
    obtain ⟨k, ht, hts⟩ := depthAfter?_cons h
    rw [brackets_cons_plain (depth?_add_binaries ht).2.2, ih hts]

/-- A count that has risen stays above zero. -/
lemma depthAfter?_pos {n m : Nat} (h : TokenKind.depthAfter? n (ts.map Token.kind) = some m)
    (hpos : 0 < n ∨ ts ≠ []) : 0 < m := by
  induction ts generalizing n with
  | nil =>
    obtain rfl := Option.some.inj h
    exact hpos.resolve_right (fun hne => hne rfl)
  | cons t ts ih =>
    obtain ⟨k, ht, hts⟩ := depthAfter?_cons h
    exact ih hts (.inl (depth?_add_binaries ht).2.1)

/-! ## The count of a translated text -/

/-- Counts of tokens other than brackets are the same before and after. -/
lemma countP_postfixFrom {count : Token → Bool} (hplain : ∀ t, count t = true → t.kind.isParen = false)
    (ts : List Token) : (postfixFrom [] ts).countP count = ts.countP count := by
  have hfilter : ∀ us : List Token, us.countP count = (us.filter (!·.kind.isParen)).countP count := by
    intro us
    rw [List.countP_filter]
    apply List.countP_congr
    intro t _
    have := hplain t
    cases hcount : count t <;> simp_all
  rw [hfilter (postfixFrom [] ts), hfilter ts]
  exact (postfixFrom_perm [] ts).countP_eq count

/-- What a count of operands says about a text, once it is translated. -/
theorem depthAfter?_translated {m : Nat} (hconcat : ∀ t ∈ ts, t.kind ≠ .concat)
    (h : TokenKind.depthAfter? 0 ((postfixFrom [] (mark ts)).map Token.kind) = some m) :
    m + slips false ts = (endsAfter false ts).toNat ∧ unpaired id [] ts = [] := by
  have hdepth := depthAfter?_add_binaries h
  have hliterals : literals (postfixFrom [] (mark ts)) = literals (mark ts) :=
    countP_postfixFrom (by simp_all [TokenKind.isParen]) _
  have hbinaries : binaries (postfixFrom [] (mark ts)) = binaries (mark ts) := by
    apply countP_postfixFrom
    intro t ht
    cases hkind : t.kind <;> simp_all [TokenKind.isBinary, TokenKind.isParen]
  have hbalance := literals_add_slips false hconcat
  rw [markAfter_false] at hbalance
  rw [hliterals, hbinaries] at hdepth
  refine ⟨?_, ?_⟩
  · have hfalse : (false : Bool).toNat = 0 := rfl
    omega
  · rw [← brackets_translated]
    exact depthAfter?_brackets h

end Token

end RegexNfa
