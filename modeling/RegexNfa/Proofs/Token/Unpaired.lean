import RegexNfa.Proofs.Token.Reading
import RegexNfa.Proofs.Token.Sending
import RegexNfa.Token.Brackets

/-!
# Brackets without partner

`unpaired` matches brackets from left to right and keeps those that find no partner.  It does not look at
other tokens, so marking makes no difference to it (`unpaired_mark`), and it is what postfix order leaves of
the brackets (`brackets_postfixFrom`).

A balanced stretch leaves nothing, whatever stands open before it (`unpaired_of_balanced`).  So a bracket
with a partner is never kept, and one that is kept is `Unmatched`.
-/

namespace RegexNfa

namespace Token

variable {α β : Type} {token : α → Token} {x : α} {xs ys opens : List α}

/-- The brackets without partner among `xs` when those of `opens` stand open before them, the latest first:
closing ones in order, then opening ones, again the latest first. -/
def unpaired (token : α → Token) (opens : List α) : List α → List α
  | [] => opens
  | x :: xs =>
    match (token x).kind, opens with
    | .parenOpen, opens => unpaired token (x :: opens) xs
    | .parenClose, [] => x :: unpaired token [] xs
    | .parenClose, _ :: opens => unpaired token opens xs
    | _, opens => unpaired token opens xs

lemma unpaired_opening (hx : (token x).kind = .parenOpen) :
    unpaired token opens (x :: xs) = unpaired token (x :: opens) xs := by
  simp only [unpaired, hx]

lemma unpaired_closing {o : α} (hx : (token x).kind = .parenClose) :
    unpaired token (o :: opens) (x :: xs) = unpaired token opens xs := by
  simp only [unpaired, hx]

lemma unpaired_stray (hx : (token x).kind = .parenClose) :
    unpaired token [] (x :: xs) = x :: unpaired token [] xs := by
  simp only [unpaired, hx]

lemma unpaired_plain (hx : (token x).kind.isParen = false) :
    unpaired token opens (x :: xs) = unpaired token opens xs := by
  cases hkind : (token x).kind with
  | parenOpen | parenClose =>
    rw [hkind] at hx
    exact absurd hx (by decide)
  | literal | concat | union | star => simp only [unpaired, hkind]

/-- The four ways in which matching takes a token. -/
lemma unpaired_cons (token : α → Token) (opens : List α) (x : α) :
    ((token x).kind.isParen = false ∧
      ∀ xs, unpaired token opens (x :: xs) = unpaired token opens xs) ∨
    ((token x).kind = .parenOpen ∧
      ∀ xs, unpaired token opens (x :: xs) = unpaired token (x :: opens) xs) ∨
    ((token x).kind = .parenClose ∧ ∃ o outer, opens = o :: outer ∧
      ∀ xs, unpaired token opens (x :: xs) = unpaired token outer xs) ∨
    ((token x).kind = .parenClose ∧ opens = [] ∧
      ∀ xs, unpaired token opens (x :: xs) = x :: unpaired token [] xs) := by
  cases hkind : (token x).kind with
  | literal | concat | union | star =>
    refine .inl ⟨rfl, fun xs => unpaired_plain ?_⟩
    rw [hkind]
    rfl
  | parenOpen => exact .inr (.inl ⟨rfl, fun xs => unpaired_opening hkind⟩)
  | parenClose =>
    cases opens with
    | nil => exact .inr (.inr (.inr ⟨rfl, rfl, fun xs => unpaired_stray hkind⟩))
    | cons o outer => exact .inr (.inr (.inl ⟨rfl, o, outer, rfl, fun xs => unpaired_closing hkind⟩))

/-! ## What matching looks at -/

lemma unpaired_filter :
    unpaired token opens (xs.filter (token · |>.kind.isParen)) = unpaired token opens xs := by
  induction xs generalizing opens with
  | nil => rfl
  | cons x xs ih =>
    cases hx : (token x).kind.isParen with
    | false => rw [List.filter_cons_of_neg (by simp [hx]), unpaired_plain hx, ih]
    | true =>
      have hfilter : (x :: xs).filter (token · |>.kind.isParen) =
          x :: xs.filter (token · |>.kind.isParen) := List.filter_cons_of_pos hx
      rw [hfilter]
      rcases unpaired_cons token opens x with ⟨hplain, _⟩ | ⟨_, hcons⟩ | ⟨_, o, outer, rfl, hcons⟩ |
        ⟨_, rfl, hcons⟩
      · rw [hplain] at hx
        exact absurd hx Bool.false_ne_true
      all_goals rw [hcons, hcons, ih]

/-- The brackets among the tokens. -/
def brackets (ts : List Token) : List Token :=
  ts.filter (·.kind.isParen)

lemma brackets_append (ts us : List Token) : brackets (ts ++ us) = brackets ts ++ brackets us :=
  List.filter_append ts us

lemma brackets_cons_plain {t : Token} {ts : List Token} (ht : t.kind.isParen = false) :
    brackets (t :: ts) = brackets ts :=
  List.filter_cons_of_neg (by rw [ht]; exact Bool.false_ne_true)

lemma brackets_cons_paren {t : Token} {ts : List Token} (ht : t.kind.isParen = true) :
    brackets (t :: ts) = t :: brackets ts :=
  List.filter_cons_of_pos ht

lemma brackets_mark (ts : List Token) : brackets (mark ts) = brackets ts :=
  filter_mark (fun _ => rfl) ts

lemma unpaired_mark (opens ts : List Token) : unpaired id opens (mark ts) = unpaired id opens ts := by
  calc unpaired id opens (mark ts)
      = unpaired id opens (brackets (mark ts)) := unpaired_filter.symm
    _ = unpaired id opens (brackets ts) := by rw [brackets_mark]
    _ = unpaired id opens ts := unpaired_filter

/-- One token adds at most itself to what is kept and to what stands open. -/
lemma exists_unpaired_cons (token : α → Token) (opens : List α) (x : α) :
    ∃ stray opens', (∀ y ∈ stray ++ opens', y ∈ opens ∨ y = x) ∧
      ∀ xs, unpaired token opens (x :: xs) = stray ++ unpaired token opens' xs := by
  rcases unpaired_cons token opens x with ⟨_, hcons⟩ | ⟨_, hcons⟩ | ⟨_, o, outer, rfl, hcons⟩ |
    ⟨_, rfl, hcons⟩
  · exact ⟨[], opens, fun y hy => .inl hy, hcons⟩
  · exact ⟨[], x :: opens, fun y hy => (List.mem_cons.1 hy).symm, hcons⟩
  · exact ⟨[], outer, fun y hy => .inl (List.mem_cons_of_mem o hy), hcons⟩
  · exact ⟨[x], [], fun y hy => .inr (List.mem_singleton.1 hy), hcons⟩

/-- What is kept comes from the open brackets or from the tokens, and leaves room for more. -/
lemma unpaired_append (token : α → Token) (opens xs : List α) :
    ∃ strays opens', (∀ y ∈ strays ++ opens', y ∈ opens ∨ y ∈ xs) ∧
      ∀ ys, unpaired token opens (xs ++ ys) = strays ++ unpaired token opens' ys := by
  induction xs generalizing opens with
  | nil => exact ⟨[], opens, fun y hy => .inl hy, fun ys => rfl⟩
  | cons x xs ih =>
    obtain ⟨stray, inner, hstray, hcons⟩ := exists_unpaired_cons token opens x
    obtain ⟨strays, opens', hmem, happend⟩ := ih inner
    refine ⟨stray ++ strays, opens', ?_, ?_⟩
    · intro y hy
      have hfirst : y ∈ stray ++ inner → y ∈ opens ∨ y ∈ x :: xs :=
        fun h => (hstray y h).imp_right fun heq => List.mem_cons.2 (.inl heq)
      rw [List.append_assoc] at hy
      rcases List.mem_append.1 hy with hy | hy
      · exact hfirst (List.mem_append_left inner hy)
      · rcases hmem y hy with hinner | hxs
        · exact hfirst (List.mem_append_right stray hinner)
        · exact .inr (List.mem_cons_of_mem x hxs)
    · intro ys
      rw [List.cons_append, hcons, happend, List.append_assoc]

lemma mem_of_mem_unpaired (hx : x ∈ unpaired token opens xs) : x ∈ opens ∨ x ∈ xs := by
  obtain ⟨strays, opens', hmem, happend⟩ := unpaired_append token opens xs
  have hall := happend []
  rw [List.append_nil] at hall
  rw [hall] at hx
  exact hmem x hx

lemma map_unpaired {token : β → Token} (f : α → β) :
    (unpaired (fun x => token (f x)) opens xs).map f = unpaired token (opens.map f) (xs.map f) := by
  induction xs generalizing opens with
  | nil => rfl
  | cons x xs ih =>
    rw [List.map_cons]
    rcases unpaired_cons (fun x => token (f x)) opens x with ⟨hx, hcons⟩ | ⟨hx, hcons⟩ |
      ⟨hx, o, outer, rfl, hcons⟩ | ⟨hx, rfl, hcons⟩
    · rw [hcons, unpaired_plain hx, ih]
    · rw [hcons, unpaired_opening hx, ih, List.map_cons]
    · rw [hcons, List.map_cons, unpaired_closing hx, ih]
    · rw [hcons, List.map_nil, unpaired_stray hx, List.map_cons, ih, List.map_nil]

/-! ## Balanced stretches -/

/-- A balanced stretch leaves no bracket behind. -/
theorem unpaired_of_balanced {ts : List Token} (h : Balanced ts) (hxs : xs.map token = ts) :
    unpaired token opens (xs ++ ys) = unpaired token opens ys := by
  -- the open brackets are arbitrary, since a group is matched with its own bracket on top of them
  induction h generalizing xs opens ys with
  | nil =>
    rw [List.map_eq_nil_iff.1 hxs]
    rfl
  | plain notParen _ ih =>
    obtain ⟨x, rest, rfl, rfl, hrest⟩ := List.map_eq_cons_iff.1 hxs
    rw [List.cons_append, unpaired_plain notParen, ih hrest]
  | group isOpen isClose _ _ ihinner ihrest =>
    obtain ⟨o, tail, rfl, rfl, htail⟩ := List.map_eq_cons_iff.1 hxs
    obtain ⟨inner, tail, rfl, hinner, htail⟩ := List.map_eq_append_iff.1 htail
    obtain ⟨c, rest, rfl, rfl, hrest⟩ := List.map_eq_cons_iff.1 htail
    rw [List.cons_append, unpaired_opening isOpen, List.append_assoc, ihinner hinner, List.cons_append,
      unpaired_closing isClose, ihrest hrest]

/-- What is kept of numbered tokens is not one of two partners. -/
theorem unmatched_of_mem_unpaired {ts : List Token} {t : Token} {i : Nat}
    (h : (t, i) ∈ unpaired Prod.fst [] ts.zipIdx) : ∀ j, ¬ Partners ts i j ∧ ¬ Partners ts j i := by
  -- two partners go together, and every kept bracket stands before the one or after the other
  have hnone : ∀ m n, Partners ts m n → i ≠ m ∧ i ≠ n := by
    intro m n hpartners
    obtain ⟨before, opening, inner, closing, after, rfl, hopening, hclosing, hinner, rfl, rfl⟩ :=
      hpartners
    rw [List.zipIdx_append, List.zipIdx_cons, List.zipIdx_append, List.zipIdx_cons] at h
    obtain ⟨strays, opens, hmem, happend⟩ := unpaired_append Prod.fst [] before.zipIdx
    rw [happend, unpaired_opening hopening, unpaired_of_balanced hinner (List.zipIdx_map_fst _ _),
      unpaired_closing hclosing, List.mem_append] at h
    have hbefore : (t, i) ∈ strays ++ opens → i < before.length := by
      intro hkept
      rcases hmem (t, i) hkept with hnil | hbefore
      · exact absurd hnil List.not_mem_nil
      · simpa using List.snd_lt_of_mem_zipIdx hbefore
    rcases h with hstray | hrest
    · have hlt := hbefore (List.mem_append_left _ hstray)
      omega
    · rcases mem_of_mem_unpaired hrest with hopen | hafter
      · have hlt := hbefore (List.mem_append_right _ hopen)
        omega
      · have hle : _ ≤ i := List.le_snd_of_mem_zipIdx hafter
        omega
  intro j
  exact ⟨fun hpartners => (hnone i j hpartners).1 rfl, fun hpartners => (hnone j i hpartners).2 rfl⟩

/-! ## What postfix order leaves of the brackets -/

lemma brackets_eq_nil {ts : List Token} (hopen : ∀ t ∈ ts, t.kind ≠ .parenOpen)
    (hclose : ∀ t ∈ ts, t.kind ≠ .parenClose) : brackets ts = [] := by
  rw [brackets, List.filter_eq_nil_iff]
  intro t ht hparen
  have hopen := hopen t ht
  have hclose := hclose t ht
  cases hkind : t.kind <;> simp_all [TokenKind.isParen]

/-- One token does to the waiting brackets what matching does. -/
lemma Sends.unpaired_cons {t : Token} {waiting out waiting' : List Token}
    (h : Sends t waiting out waiting') (hclose : ∀ w ∈ waiting, w.kind ≠ .parenClose) :
    (∀ w ∈ waiting', w.kind ≠ .parenClose) ∧
      ∀ rest, unpaired id (brackets waiting) (t :: rest) =
        brackets out ++ unpaired id (brackets waiting') rest := by
  cases h with
  | literal kind =>
    refine ⟨hclose, fun rest => ?_⟩
    have ht : t.kind.isParen = false := by rw [kind]; rfl
    rw [unpaired_plain ht, brackets_cons_plain ht]
    rfl
  | @operator _ looser kind above =>
    obtain ⟨hout, hlooser⟩ := List.forall_mem_append.1 hclose
    have ht : t.kind.isParen = false := by
      cases hkind : t.kind <;> simp_all [TokenKind.isOperator, TokenKind.isParen]
    refine ⟨?_, fun rest => ?_⟩
    · refine List.forall_mem_cons.2 ⟨?_, hlooser⟩
      intro hkind
      rw [hkind] at ht
      exact absurd ht (by decide)
    · rw [unpaired_plain ht, brackets_append, brackets_eq_nil above hout, brackets_cons_plain ht]
      rfl
  | opening kind =>
    have ht : t.kind.isParen = true := by rw [kind]; rfl
    refine ⟨?_, fun rest => ?_⟩
    · refine List.forall_mem_cons.2 ⟨?_, hclose⟩
      rw [kind]
      decide
    · rw [unpaired_opening kind, brackets_cons_paren ht]
      rfl
  | @closing _ outer opening kind above partner =>
    obtain ⟨hout, houter⟩ := List.forall_mem_append.1 hclose
    have hopening : opening.kind.isParen = true := by rw [partner]; rfl
    refine ⟨(List.forall_mem_cons.1 houter).2, fun rest => ?_⟩
    rw [brackets_append, brackets_eq_nil above hout, brackets_cons_paren hopening, List.nil_append,
      unpaired_closing kind]
    rfl
  | stray kind above =>
    have ht : t.kind.isParen = true := by rw [kind]; rfl
    refine ⟨by simp, fun rest => ?_⟩
    rw [brackets_append, brackets_eq_nil above hclose, unpaired_stray kind, brackets_cons_paren ht]
    rfl

/-- Postfix order keeps the brackets without partner: closing ones where they stand, then opening ones from
the last to the first. -/
theorem brackets_postfixFrom {waiting : List Token} (ts : List Token)
    (hclose : ∀ w ∈ waiting, w.kind ≠ .parenClose) :
    brackets (postfixFrom waiting ts) = unpaired id (brackets waiting) ts := by
  induction ts generalizing waiting with
  | nil => rfl
  | cons t ts ih =>
    obtain ⟨out, waiting', hsends, hsent⟩ := exists_sends t waiting
    obtain ⟨hclose', hunpaired⟩ := hsends.unpaired_cons hclose
    rw [hsent, brackets_append, ih hclose', hunpaired]

lemma brackets_translated (ts : List Token) :
    brackets (postfixFrom [] (mark ts)) = unpaired id [] ts := by
  have hsent : brackets (postfixFrom [] (mark ts)) = unpaired id [] (mark ts) :=
    brackets_postfixFrom (mark ts) (by simp)
  rw [hsent, unpaired_mark]

/-- A bracket that is left in a translated text has no partner in it. -/
theorem exists_unmatched_of_mem_postfixFrom {ts : List Token} {t : Token}
    (ht : t ∈ postfixFrom [] (mark ts)) (hparen : t.kind.isParen = true) :
    ∃ i, ts[i]? = some t ∧ Unmatched ts i := by
  have hkept : t ∈ brackets (postfixFrom [] (mark ts)) := List.mem_filter.2 ⟨ht, hparen⟩
  have hnumbered : (unpaired Prod.fst [] ts.zipIdx).map Prod.fst = unpaired id [] ts := by
    have hmap : (unpaired (fun x : Token × Nat => id x.1) [] ts.zipIdx).map Prod.fst =
        unpaired id [] (ts.zipIdx.map Prod.fst) := map_unpaired Prod.fst
    rw [List.zipIdx_map_fst] at hmap
    exact hmap
  rw [brackets_translated, ← hnumbered] at hkept
  obtain ⟨⟨u, i⟩, hmem, rfl⟩ := List.mem_map.1 hkept
  have hi : ts[i]? = some u := by
    rcases mem_of_mem_unpaired hmem with hnil | hzip
    · exact absurd hnil List.not_mem_nil
    · exact List.mk_mem_zipIdx_iff_getElem?.1 hzip
  exact ⟨i, hi, ⟨u, hi, hparen⟩, unmatched_of_mem_unpaired hmem⟩

end Token

end RegexNfa
