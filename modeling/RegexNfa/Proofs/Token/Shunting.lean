import RegexNfa.Proofs.Token.Reading
import RegexNfa.Proofs.Token.Sending

/-!
# Postfix order is the order of the parse tree

What a phrase adds to the output and to the waiting tokens, whatever waits below it and follows it, is the
listing of its parse tree (`reorders_phrase`).  How the listing is split between the two is the invariant
`Reorders`: the operators left waiting are the last of the listing, and each binds at least as tightly as the
phrase, so that the next operator of the phrase, or the bracket around it, sends all of them out.

At the end of the text nothing follows, and the output is the whole listing (`postfixed_ofText`).
-/

namespace RegexNfa

/-- How tightly the operators of a phrase bind at least, those in brackets aside. -/
def Phrase.level : Phrase → Nat
  | alternation => 1
  | sequence => 2
  | repetition => 3
  | atom => 4

namespace Token

lemma yieldsTo_mono {m n : Nat} {top : Token} (hle : m ≤ n) (h : yieldsTo n top = true) :
    yieldsTo m top = true := by
  simp only [yieldsTo, Bool.and_eq_true, decide_eq_true_eq] at h ⊢
  exact ⟨h.1, by omega⟩

/-! ## What a stretch of tokens leaves waiting -/

/-- Whatever waits below and does not bind as tightly as `level`, the tokens `ts` send out the first part of
`listing` and leave the rest waiting: operators that bind at least as tightly as `level`. -/
def Reorders (level : Nat) (ts listing : List Token) : Prop :=
  ∀ waiting : List Token, (∀ top ∈ waiting.head?, yieldsTo level top = false) →
    ∃ out ops, out ++ ops = listing ∧ (∀ op ∈ ops, yieldsTo level op = true) ∧
      ∀ rest, postfixFrom waiting (ts ++ rest) = out ++ postfixFrom (ops ++ waiting) rest

namespace Reorders

variable {m n : Nat} {ts us listing listing' : List Token}

lemma mono (hle : m ≤ n) (h : Reorders n ts listing) : Reorders m ts listing := by
  intro waiting hwaiting
  have hstays : ∀ top ∈ waiting.head?, yieldsTo n top = false := by
    intro top htop
    cases hyields : yieldsTo n top with
    | false => rfl
    | true => rw [← hwaiting top htop, yieldsTo_mono hle hyields]
  obtain ⟨out, ops, hlisting, hops, hout⟩ := h waiting hstays
  exact ⟨out, ops, hlisting, fun op hop => yieldsTo_mono hle (hops op hop), hout⟩

/-- Where nothing waits and nothing follows, the whole listing is sent out. -/
lemma postfixFrom_nil (h : Reorders m ts listing) : postfixFrom [] ts = listing := by
  obtain ⟨out, ops, rfl, _, hout⟩ := h [] (by simp)
  have hall := hout []
  rw [List.append_nil, List.append_nil] at hall
  exact hall

lemma nil (level : Nat) : Reorders level [] [] := by
  intro waiting _
  exact ⟨[], [], rfl, by simp, fun rest => rfl⟩

lemma literal (level : Nat) {t : Token} (ht : t.kind = .literal) : Reorders level [t] [t] := by
  intro waiting _
  exact ⟨[t], [], rfl, by simp, fun rest => postfixFrom_literal ht⟩

/-- A matched pair of brackets sends out everything between them. -/
lemma group (level : Nat) {opening closing : Token} (hopening : opening.kind = .parenOpen)
    (hclosing : closing.kind = .parenClose) (h : Reorders m ts listing) :
    Reorders level (opening :: (ts ++ [closing])) listing := by
  intro waiting _
  have hstays : ∀ top ∈ (opening :: waiting).head?, yieldsTo m top = false := by
    intro top htop
    rw [← Option.some.inj htop, yieldsTo, hopening]
    rfl
  obtain ⟨out, ops, rfl, hops, hout⟩ := h (opening :: waiting) hstays
  have hnot : ∀ op ∈ ops, op.kind ≠ .parenOpen := fun op hop => ne_parenOpen_of_yieldsTo (hops op hop)
  refine ⟨out ++ ops, [], List.append_nil _, by simp, ?_⟩
  intro rest
  rw [List.cons_append, postfixFrom_parenOpen hopening, List.append_assoc, List.singleton_append, hout,
    postfixFrom_parenClose hopening hclosing hnot, List.append_assoc, List.nil_append]

/-- A repetition goes out after what it repeats. -/
lemma star {t : Token} (ht : t.kind = .star) (h : Reorders 3 ts listing) :
    Reorders 3 (ts ++ [t]) (listing ++ [t]) := by
  intro waiting hwaiting
  obtain ⟨out, ops, rfl, hops, hout⟩ := h waiting hwaiting
  refine ⟨out ++ ops, [t], rfl, ?_, ?_⟩
  · intro op hop
    rw [List.mem_singleton.1 hop, yieldsTo, ht]
    rfl
  · intro rest
    have hprecedence : t.kind.precedence = 3 := by rw [ht]; rfl
    rw [← hprecedence] at hops hwaiting
    have hoperator : t.kind.isOperator = true := by rw [ht]; rfl
    rw [List.append_assoc, List.singleton_append, hout, postfixFrom_operator hoperator hops hwaiting,
      List.append_assoc, List.singleton_append]

/-- A binary operator waits for its right operand, which binds tighter, and goes out after both. -/
lemma binary {t : Token} (ht : t.kind.isOperator = true) (hlevel : t.kind.precedence = m)
    (hlt : m < n) (left : Reorders m ts listing) (right : Reorders n us listing') :
    Reorders m (ts ++ t :: us) (listing ++ listing' ++ [t]) := by
  subst hlevel
  intro waiting hwaiting
  obtain ⟨out, ops, rfl, hops, hout⟩ := left waiting hwaiting
  -- the operator is what waits on top while the right operand is read, and nothing in it reaches below
  have hstays : ∀ top ∈ (t :: waiting).head?, yieldsTo n top = false := by
    intro top htop
    rw [← Option.some.inj htop, yieldsTo, decide_eq_false (by omega : ¬ n ≤ t.kind.precedence),
      Bool.and_false]
  obtain ⟨out', ops', rfl, hops', hout'⟩ := right (t :: waiting) hstays
  refine ⟨out ++ ops ++ out', ops' ++ [t], by simp only [List.append_assoc], ?_, ?_⟩
  · intro op hop
    rcases List.mem_append.1 hop with hop | hop
    · exact yieldsTo_mono (Nat.le_of_lt hlt) (hops' op hop)
    · rw [List.mem_singleton.1 hop, yieldsTo, decide_eq_true (Nat.le_refl _), Bool.and_true,
        decide_eq_true_eq]
      intro hopen
      rw [hopen] at ht
      exact absurd ht Bool.false_ne_true
  · intro rest
    rw [List.append_assoc, List.cons_append, hout, postfixFrom_operator ht hops hwaiting, hout']
    simp only [List.append_assoc, List.singleton_append]

end Reorders

/-! ## Phrases -/

/-- Nothing is marked at the brackets of a group. -/
lemma mark_group (start : Nat) (s : List Char) :
    mark (scanFrom start ('(' :: (s ++ [')']))) =
      ⟨.parenOpen, .ofChar start '('⟩ :: (mark (scanFrom (start + 1) s) ++
        [⟨.parenClose, .ofChar (start + 1 + byteLength s) ')'⟩]) := by
  have hscan : scanFrom start ('(' :: (s ++ [')'])) =
      ⟨.parenOpen, .ofChar start '('⟩ :: (scanFrom (start + 1) s ++
        [⟨.parenClose, .ofChar (start + 1 + byteLength s) ')'⟩]) := by
    rw [scanFrom, scanFrom_append]
    rfl
  rw [hscan, mark_cons rfl, mark_append_cons rfl, mark_singleton]

/-- The marked tokens of a phrase leave its listing. -/
theorem reorders_phrase {phrase : Phrase} {start : Nat} {s : List Char} {t : ParseTree}
    (h : Derives phrase start s t) : Reorders phrase.level (mark (scanFrom start s)) t.listing := by
  induction h with
  | @literal start c plain =>
    have hscan : scanFrom start [c] = [⟨.literal, .ofChar start c⟩] := by
      rw [scanFrom, plain]
      rfl
    rw [hscan]
    exact .literal _ rfl
  | @group start s t h ih =>
    rw [mark_group]
    exact .group _ rfl rfl ih
  | atom _ ih => exact ih.mono (by decide)
  | @star start s t _ ih =>
    have hscan : scanFrom (start + byteLength s) ['*'] =
        [⟨.star, .ofChar (start + byteLength s) '*'⟩] := rfl
    rw [scanFrom_append, hscan, mark_append_cons rfl]
    exact .star rfl ih
  | repetition _ ih => exact ih.mono (by decide)
  | @concat start s u l r hl hr ihl ihr =>
    have hmark : mark (scanFrom start (s ++ u)) = mark (scanFrom start s) ++
        ⟨.concat, .emptyAt (start + byteLength s)⟩ :: mark (scanFrom (start + byteLength s) u) := by
      obtain ⟨rest, last, hlast, hends⟩ := hl.getLast_endsOperand
      obtain ⟨first, rest', hfirst, hstarts, hplace⟩ := hr.head_startsOperand
      have hseam : seam (scanFrom start s) (scanFrom (start + byteLength s) u) =
          [⟨.concat, .emptyAt (start + byteLength s)⟩] := by
        rw [hlast, hfirst, seam_concat_cons, between, TokenKind.juxtaposed, hends, hstarts,
          Bool.and_true, if_pos rfl, marker, hplace]
      rw [scanFrom_append, mark_append, hseam, List.singleton_append]
    rw [hmark]
    exact .binary rfl rfl (Nat.lt_succ_self 2) ihl ihr
  | sequence _ ih => exact ih.mono (by decide)
  | @union start s u l r hl hr ihl ihr =>
    have hscan : scanFrom (start + byteLength s) ('|' :: u) =
        ⟨.union, .ofChar (start + byteLength s) '|'⟩ ::
          scanFrom (start + byteLength s + 1) u := rfl
    rw [scanFrom_append, hscan, mark_append_cons rfl, mark_cons rfl]
    exact .binary rfl rfl (Nat.lt_succ_self 1) ihl ihr

/-- A text that spells an expression is put into the order of its parse tree. -/
theorem postfixed_ofText {source : List Char} {tree : ParseTree} (h : Spells source tree) :
    (TokenStream.ofText source).marked.postfixed.tokens = tree.listing :=
  (reorders_phrase h).postfixFrom_nil

end Token

end RegexNfa
