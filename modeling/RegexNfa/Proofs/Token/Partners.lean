import Mathlib.Data.List.Nodup
import RegexNfa.Proofs.Token.Unpaired

/-!
# Every other bracket has a partner

`Proofs/Token/Unpaired` shows that a bracket which matching keeps has no partner.  Here is the converse: a bracket that
is not kept has one.  The invariant is `Standing`: the brackets that stand open after a stretch cut it into pieces, and
every piece behind an open bracket is balanced.  So a closing bracket and the latest open one are partners
(`kept_or_partner`).

With it `Unmatched` can be decided, and what postfix order leaves of the brackets is read off the tokens it was given:
closing brackets without partner in order, then opening ones in reverse order (`unpaired_eq_unmatched`).
-/

namespace RegexNfa

namespace Token

variable {ts us : List Token} {t : Token} {i : Nat} {opens : List (Token × Nat)}

/-! ## Brackets that stand open -/

/-- `Standing opens ts`: after the stretch `ts` the numbered brackets `opens` stand open, the latest first, and what comes
after each of them up to the next one is balanced. -/
inductive Standing : List (Token × Nat) → List Token → Prop where
  | loose (ts : List Token) : Standing [] ts
  | behind {opens : List (Token × Nat)} {ts inner : List Token} {o : Token} (outer : Standing opens ts)
      (isOpen : o.kind = .parenOpen) (within : Balanced inner) :
      Standing ((o, ts.length) :: opens) (ts ++ o :: inner)

namespace Standing

/-- A balanced stretch opens and closes nothing. -/
lemma append (h : Standing opens ts) (hus : Balanced us) : Standing opens (ts ++ us) := by
  cases h with
  | loose ts => exact .loose _
  | behind outer isOpen within =>
    rw [List.append_assoc, List.cons_append]
    exact .behind outer isOpen (within.append hus)

lemma opening (h : Standing opens ts) (ht : t.kind = .parenOpen) :
    Standing ((t, ts.length) :: opens) (ts ++ [t]) :=
  .behind h ht .nil

/-- A closing bracket is the partner of the latest open one, and closes a balanced stretch with it. -/
lemma closing {o : Token × Nat} (h : Standing (o :: opens) ts) (ht : t.kind = .parenClose) :
    Standing opens (ts ++ [t]) ∧ ∀ rest, Partners (ts ++ t :: rest) o.2 ts.length := by
  cases h with
  | @behind _ before inner opening outer isOpen within =>
    refine ⟨?_, ?_⟩
    · rw [List.append_assoc, List.cons_append]
      exact outer.append (.group isOpen ht within .nil)
    · intro rest
      refine ⟨before, opening, inner, t, rest, ?_, isOpen, ht, within, rfl, ?_⟩
      · rw [List.append_assoc, List.cons_append]
      · rw [List.length_append, List.length_cons]
        omega

end Standing

/-- A bracket that stands open or is still to come is kept, or it has a partner. -/
lemma kept_or_partner (h : Standing opens ts) (us : List Token) :
    ∀ x ∈ opens ++ us.zipIdx ts.length, x.1.kind.isParen = true →
      x ∈ unpaired Prod.fst opens (us.zipIdx ts.length) ∨
        ∃ j, Partners (ts ++ us) x.2 j ∨ Partners (ts ++ us) j x.2 := by
  induction us generalizing ts opens with
  | nil =>
    intro x hx _
    rw [List.zipIdx_nil, List.append_nil] at hx
    exact .inl hx
  | cons t us ih =>
    intro x hx hparen
    have hlength : (ts ++ [t]).length = ts.length + 1 := List.length_append
    have hsplit : ts ++ t :: us = ts ++ [t] ++ us := List.append_cons ts t us
    have hnext : ∀ {opens' : List (Token × Nat)}, Standing opens' (ts ++ [t]) →
        (x ∈ opens' ∨ x ∈ us.zipIdx (ts.length + 1)) →
        x ∈ unpaired Prod.fst opens' (us.zipIdx (ts.length + 1)) ∨
          ∃ j, Partners (ts ++ t :: us) x.2 j ∨ Partners (ts ++ t :: us) j x.2 := by
      intro opens' hstanding hx
      have hlater := ih hstanding x
      rw [hlength, ← hsplit, List.mem_append] at hlater
      exact hlater hx hparen
    rw [List.zipIdx_cons, List.mem_append, List.mem_cons] at hx
    rw [List.zipIdx_cons]
    rcases unpaired_cons Prod.fst opens (t, ts.length) with ⟨hplain, hcons⟩ | ⟨hopen, hcons⟩ |
      ⟨hclose, o, outer, rfl, hcons⟩ | ⟨_, rfl, hcons⟩
    · rw [hcons]
      rcases hx with hx | rfl | hx
      · exact hnext (h.append (.plain hplain .nil)) (.inl hx)
      · rw [hplain] at hparen
        exact absurd hparen Bool.false_ne_true
      · exact hnext (h.append (.plain hplain .nil)) (.inr hx)
    · rw [hcons]
      rcases hx with hx | rfl | hx
      · exact hnext (h.opening hopen) (.inl (List.mem_cons_of_mem _ hx))
      · exact hnext (h.opening hopen) (.inl List.mem_cons_self)
      · exact hnext (h.opening hopen) (.inr hx)
    · obtain ⟨hstanding, hpartners⟩ := h.closing hclose
      rw [hcons]
      rcases hx with hx | rfl | hx
      · rcases List.mem_cons.1 hx with rfl | hx
        · exact .inr ⟨_, .inl (hpartners us)⟩
        · exact hnext hstanding (.inl hx)
      · exact .inr ⟨_, .inr (hpartners us)⟩
      · exact hnext hstanding (.inr hx)
    · rw [hcons]
      rcases hx with hx | rfl | hx
      · exact absurd hx List.not_mem_nil
      · exact .inl List.mem_cons_self
      · exact (hnext (.loose _) (.inr hx)).imp_left (List.mem_cons_of_mem _)

/-! ## The order in which brackets are kept -/

variable {α : Type} {token : α → Token} {l xs : List α}

/-- Matching keeps closing brackets in order, then opening ones in reverse order. -/
lemma exists_unpaired_split {opens : List α} (hopens : ∀ o ∈ opens, (token o).kind = .parenOpen) (xs : List α) :
    ∃ closing opening, unpaired token opens xs = closing ++ opening ∧ closing.Sublist xs ∧
      opening.reverse.Sublist (opens.reverse ++ xs) ∧ (∀ c ∈ closing, (token c).kind = .parenClose) ∧
      ∀ o ∈ opening, (token o).kind = .parenOpen := by
  induction xs generalizing opens with
  | nil =>
    refine ⟨[], opens, rfl, List.Sublist.refl [], ?_, by simp, hopens⟩
    rw [List.append_nil]
  | cons x xs ih =>
    rcases unpaired_cons token opens x with ⟨_, hcons⟩ | ⟨hopen, hcons⟩ | ⟨_, o, outer, rfl, hcons⟩ |
      ⟨hclose, rfl, hcons⟩
    · obtain ⟨closing, opening, hsplit, hclosing, hopening, hkinds⟩ := ih hopens
      refine ⟨closing, opening, (hcons xs).trans hsplit, hclosing.cons x, ?_, hkinds⟩
      exact hopening.trans ((List.sublist_cons_self x xs).append_left _)
    · obtain ⟨closing, opening, hsplit, hclosing, hopening, hkinds⟩ := ih (List.forall_mem_cons.2 ⟨hopen, hopens⟩)
      rw [List.reverse_cons, List.append_assoc, List.singleton_append] at hopening
      exact ⟨closing, opening, (hcons xs).trans hsplit, hclosing.cons x, hopening, hkinds⟩
    · obtain ⟨closing, opening, hsplit, hclosing, hopening, hkinds⟩ := ih (List.forall_mem_cons.1 hopens).2
      refine ⟨closing, opening, (hcons xs).trans hsplit, hclosing.cons x, hopening.trans ?_, hkinds⟩
      rw [List.reverse_cons, List.append_assoc]
      exact (((List.sublist_cons_self x xs).trans (List.sublist_cons_self o _))).append_left _
    · obtain ⟨closing, opening, hsplit, hclosing, hopening, hcloses, hkinds⟩ := ih hopens
      refine ⟨x :: closing, opening, ?_, hclosing.cons_cons x, ?_, List.forall_mem_cons.2 ⟨hclose, hcloses⟩, hkinds⟩
      · rw [hcons, hsplit, List.cons_append]
      · exact hopening.trans ((List.sublist_cons_self x xs).append_left _)

/-- A part of a list without repetition is settled by its members. -/
lemma eq_filter_of_sublist {p : α → Bool} (h : l.Sublist xs) (hnodup : xs.Nodup)
    (hmem : ∀ x, x ∈ l ↔ x ∈ xs ∧ p x = true) : l = xs.filter p := by
  have hall : l.filter p = l := List.filter_eq_self.2 fun x hx => ((hmem x).1 hx).2
  have hsub : l.Sublist (xs.filter p) := by
    rw [← hall]
    exact h.filter p
  have hperm : l.Perm (xs.filter p) := by
    rw [List.perm_ext_iff_of_nodup (hnodup.sublist h) (hnodup.filter p)]
    intro x
    rw [hmem, List.mem_filter]
  exact hsub.eq_of_length hperm.length_eq

/-- What is kept of numbered tokens is a part of them in order and another in reverse order. -/
lemma exists_kept_split (ts : List Token) :
    ∃ closing opening, unpaired Prod.fst [] ts.zipIdx = closing ++ opening ∧ closing.Sublist ts.zipIdx ∧
      opening.reverse.Sublist ts.zipIdx ∧ (∀ c ∈ closing, c.1.kind = .parenClose) ∧
      ∀ o ∈ opening, o.1.kind = .parenOpen := by
  have hnone : ∀ o ∈ ([] : List (Token × Nat)), o.1.kind = .parenOpen := by simp
  exact exists_unpaired_split hnone ts.zipIdx

lemma nodup_zipIdx (xs : List α) : xs.zipIdx.Nodup := by
  apply List.Nodup.of_map Prod.snd
  rw [List.zipIdx_map_snd]
  exact List.nodup_range'

/-! ## Brackets without partner -/

/-- Matching keeps the brackets without partner, and no others. -/
theorem mem_unpaired_iff : (t, i) ∈ unpaired Prod.fst [] ts.zipIdx ↔ ts[i]? = some t ∧ Unmatched ts i := by
  obtain ⟨closing, opening, hsplit, -, -, hclosing, hopening⟩ := exists_kept_split ts
  constructor
  · intro hkept
    have hi : ts[i]? = some t := by
      rcases mem_of_mem_unpaired hkept with hnil | hzip
      · exact absurd hnil List.not_mem_nil
      · exact List.mk_mem_zipIdx_iff_getElem?.1 hzip
    have hparen : t.kind.isParen = true := by
      have hkept' := hkept
      rw [hsplit, List.mem_append] at hkept'
      rcases hkept' with hmem | hmem
      · rw [hclosing _ hmem]
        rfl
      · rw [hopening _ hmem]
        rfl
    exact ⟨hi, ⟨t, hi, hparen⟩, unmatched_of_mem_unpaired hkept⟩
  · rintro ⟨hi, ⟨u, hu, hparen⟩, halone⟩
    obtain rfl := Option.some.inj (hi.symm.trans hu)
    have hmem : (t, i) ∈ [] ++ ts.zipIdx 0 := List.mk_mem_zipIdx_iff_getElem?.2 hi
    rcases kept_or_partner (.loose []) ts (t, i) hmem hparen with hkept | ⟨j, hleft | hright⟩
    · exact hkept
    · exact absurd hleft (halone j).1
    · exact absurd hright (halone j).2

lemma unmatched_iff : Unmatched ts i ↔ i ∈ (unpaired Prod.fst [] ts.zipIdx).map Prod.snd := by
  rw [List.mem_map]
  constructor
  · intro h
    obtain ⟨t, ht, _⟩ := h.1
    exact ⟨(t, i), mem_unpaired_iff.2 ⟨ht, h⟩, rfl⟩
  · rintro ⟨⟨t, j⟩, hkept, rfl⟩
    exact (mem_unpaired_iff.1 hkept).2

instance (ts : List Token) (i : Nat) : Decidable (Unmatched ts i) :=
  decidable_of_iff _ unmatched_iff.symm

/-- The brackets of a kind that have no partner, in order, each with its place. -/
def unmatched (kind : TokenKind) (ts : List Token) : List (Token × Nat) :=
  ts.zipIdx.filter fun x => decide (x.1.kind = kind ∧ Unmatched ts x.2)

lemma mem_unmatched {kind : TokenKind} :
    (t, i) ∈ unmatched kind ts ↔ ts[i]? = some t ∧ t.kind = kind ∧ Unmatched ts i := by
  rw [unmatched, List.mem_filter, List.mk_mem_zipIdx_iff_getElem?, decide_eq_true_eq]

/-- If brackets without partner are parted by kind, one part has all those of its kind. -/
lemma eq_unmatched {kind : TokenKind} {part others : List (Token × Nat)} (hpart : part.Sublist ts.zipIdx)
    (hkind : ∀ x ∈ part, x.1.kind = kind) (hothers : ∀ x ∈ others, x.1.kind ≠ kind)
    (hkept : ∀ t i, (t, i) ∈ part ∨ (t, i) ∈ others ↔ ts[i]? = some t ∧ Unmatched ts i) :
    part = unmatched kind ts := by
  apply eq_filter_of_sublist hpart (nodup_zipIdx ts)
  rintro ⟨t, i⟩
  rw [List.mk_mem_zipIdx_iff_getElem?, decide_eq_true_eq]
  constructor
  · intro hmem
    obtain ⟨hi, hunmatched⟩ := (hkept t i).1 (.inl hmem)
    exact ⟨hi, hkind _ hmem, hunmatched⟩
  · rintro ⟨hi, hkind', hunmatched⟩
    exact ((hkept t i).2 ⟨hi, hunmatched⟩).resolve_right fun hmem => hothers _ hmem hkind'

/-- Matching keeps the closing brackets without partner in order, then the opening ones in reverse order. -/
theorem unpaired_eq_unmatched (ts : List Token) :
    unpaired Prod.fst [] ts.zipIdx = unmatched .parenClose ts ++ (unmatched .parenOpen ts).reverse := by
  obtain ⟨closing, opening, hsplit, hclosing, hopening, hcloses, hopens⟩ := exists_kept_split ts
  have hkept : ∀ t i, (t, i) ∈ closing ∨ (t, i) ∈ opening ↔ ts[i]? = some t ∧ Unmatched ts i := by
    intro t i
    rw [← mem_unpaired_iff, hsplit, List.mem_append]
  have hclosing' : closing = unmatched .parenClose ts := by
    refine eq_unmatched hclosing hcloses ?_ hkept
    intro x hx
    rw [hopens x hx]
    decide
  have hopening' : opening.reverse = unmatched .parenOpen ts := by
    have hkept' : ∀ t i, (t, i) ∈ opening.reverse ∨ (t, i) ∈ closing ↔ ts[i]? = some t ∧ Unmatched ts i := by
      intro t i
      rw [List.mem_reverse, or_comm, hkept]
    refine eq_unmatched hopening ?_ ?_ hkept'
    · intro x hx
      exact hopens x (List.mem_reverse.1 hx)
    · intro x hx
      rw [hcloses x hx]
      decide
  rw [hsplit, ← hclosing', ← hopening', List.reverse_reverse]

/-- What matching keeps, without the places. -/
lemma unpaired_id_eq (ts : List Token) :
    unpaired id [] ts = (unmatched .parenClose ts ++ (unmatched .parenOpen ts).reverse).map Prod.fst := by
  have hmap : (unpaired (fun x : Token × Nat => id x.1) [] ts.zipIdx).map Prod.fst =
      unpaired id [] (ts.zipIdx.map Prod.fst) := map_unpaired Prod.fst
  rw [List.zipIdx_map_fst] at hmap
  rw [← unpaired_eq_unmatched, ← hmap]
  rfl

end Token

end RegexNfa
