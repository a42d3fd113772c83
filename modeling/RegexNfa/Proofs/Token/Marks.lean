import Mathlib.Data.List.Chain
import RegexNfa.Proofs.Token.Reading
import RegexNfa.Token.Postfix

/-!
# Marks stand where operands meet

Marking is described here by the places that the tokens come to, without saying how the list is gone through
(`MarkedAt`): a token moves up by one for each pair of operands that meet before it, the place left free between the two
holds the mark, and no other place is left free.  The description fits one list only, the marked one (`markedAt_iff`).
A mark neither ends nor begins an operand, so no operands meet in the marked list (`isChain_mark`), and a list in which
none meet is marked already (`mark_of_isChain`).
-/

namespace RegexNfa

namespace Token

variable {t u : Token} {ts us : List Token} {place : Nat → Nat} {i : Nat}

/-- An operand ends with the one token and another begins with the next. -/
def Meet (t u : Token) : Prop :=
  (t.kind = .literal ∨ t.kind = .parenClose ∨ t.kind = .star) ∧ (u.kind = .literal ∨ u.kind = .parenOpen)

/-- The tokens of `ts` stand in `us` at the given places, and besides them only a mark between any two that meet. -/
structure MarkedAt (place : Nat → Nat) (ts us : List Token) : Prop where
  first : place 0 = 0
  kept : ∀ (i : Nat) (t : Token), ts[i]? = some t → us[place i]? = some t
  meeting : ∀ (i : Nat) (t u : Token), ts[i]? = some t → ts[i + 1]? = some u → Meet t u →
    place (i + 1) = place i + 2 ∧ us[place i + 1]? = some ⟨.concat, .emptyAt u.span.start⟩
  apart : ∀ (i : Nat) (t : Token), ts[i]? = some t → (∀ u, ts[i + 1]? = some u → ¬ Meet t u) →
    place (i + 1) = place i + 1
  last : us.length = place ts.length

lemma meet_iff : Meet t u ↔ t.kind.juxtaposed u.kind = true := by
  have hends : t.kind.endsOperand = true ↔ t.kind = .literal ∨ t.kind = .parenClose ∨ t.kind = .star := by
    cases t.kind <;> simp [TokenKind.endsOperand]
  have hstarts : u.kind.startsOperand = true ↔ u.kind = .literal ∨ u.kind = .parenOpen := by
    cases u.kind <;> simp [TokenKind.startsOperand]
  rw [Meet, TokenKind.juxtaposed, Bool.and_eq_true, hends, hstarts]

lemma between_of_meet (h : Meet t u) : between t u = [marker u] := by
  rw [between, if_pos (meet_iff.1 h)]

lemma between_of_not_meet (h : ¬ Meet t u) : between t u = [] := by
  rw [between, if_neg (mt meet_iff.2 h)]

/-! ## The places of the tokens -/

/-- Where the token at position `i` comes to: behind the tokens before it, marked, and the mark in front of it. -/
def placeIn (ts : List Token) (i : Nat) : Nat :=
  (mark (ts.take i) ++ seam (ts.take i) (ts.drop i)).length

lemma mark_eq_cut (ts : List Token) (i : Nat) :
    mark ts = (mark (ts.take i) ++ seam (ts.take i) (ts.drop i)) ++ mark (ts.drop i) := by
  rw [List.append_assoc, ← mark_append, List.take_append_drop]

lemma placeIn_add (ts : List Token) (i : Nat) : placeIn ts i + (mark (ts.drop i)).length = (mark ts).length := by
  rw [placeIn, ← List.length_append, ← mark_eq_cut]

/-- From the place of a token on stands what this token and those after it are marked as. -/
lemma getElem?_placeIn (ts : List Token) (i j : Nat) :
    (mark ts)[placeIn ts i + j]? = (mark (ts.drop i))[j]? := by
  rw [placeIn, mark_eq_cut ts i, List.getElem?_append_right (Nat.le_add_right _ j), Nat.add_sub_cancel_left]

lemma mark_drop (ht : ts[i]? = some t) :
    mark (ts.drop i) = t :: (seam [t] (ts.drop (i + 1)) ++ mark (ts.drop (i + 1))) := by
  obtain ⟨hi, rfl⟩ := List.getElem?_eq_some_iff.1 ht
  rw [List.drop_eq_getElem_cons hi]
  exact mark_append [ts[i]] (ts.drop (i + 1))

lemma placeIn_succ (ht : ts[i]? = some t) :
    placeIn ts (i + 1) = placeIn ts i + 1 + (seam [t] (ts.drop (i + 1))).length := by
  have hhere := placeIn_add ts i
  have hnext := placeIn_add ts (i + 1)
  rw [mark_drop ht, List.length_cons, List.length_append] at hhere
  omega

lemma seam_drop (hu : ts[i + 1]? = some u) : seam [t] (ts.drop (i + 1)) = between t u := by
  rw [seam, List.head?_drop, hu]
  rfl

lemma seam_drop_of_none (hnone : ts[i + 1]? = none) : seam [t] (ts.drop (i + 1)) = [] := by
  rw [seam, List.head?_drop, hnone]
  rfl

theorem markedAt_mark (ts : List Token) : MarkedAt (placeIn ts) ts (mark ts) where
  first := by
    have hstart := placeIn_add ts 0
    rw [List.drop_zero] at hstart
    omega
  kept := by
    intro i t ht
    rw [← Nat.add_zero (placeIn ts i), getElem?_placeIn, mark_drop ht]
    rfl
  meeting := by
    intro i t u ht hu hmeet
    have hseam : seam [t] (ts.drop (i + 1)) = [marker u] := by
      rw [seam_drop hu, between_of_meet hmeet]
    refine ⟨?_, ?_⟩
    · rw [placeIn_succ ht, hseam]
      rfl
    · rw [getElem?_placeIn, mark_drop ht, hseam]
      rfl
  apart := by
    intro i t ht hapart
    have hseam : seam [t] (ts.drop (i + 1)) = [] := by
      cases hu : ts[i + 1]? with
      | none => exact seam_drop_of_none hu
      | some u => rw [seam_drop hu, between_of_not_meet (hapart u hu)]
    rw [placeIn_succ ht, hseam]
    rfl
  last := by
    have hend := placeIn_add ts ts.length
    rw [List.drop_length] at hend
    exact hend.symm

/-! ## No other list fits -/

namespace MarkedAt

variable {place' : Nat → Nat} {us' : List Token}

lemma place_eq (h : MarkedAt place ts us) (h' : MarkedAt place' ts us') {i : Nat} (hi : i ≤ ts.length) :
    place i = place' i := by
  induction i with
  | zero => rw [h.first, h'.first]
  | succ i ih =>
    have ht : ts[i]? = some ts[i] := List.getElem?_eq_getElem hi
    have hsame := ih (Nat.le_of_succ_le hi)
    by_cases hmeet : ∃ u, ts[i + 1]? = some u ∧ Meet ts[i] u
    · obtain ⟨u, hu, hmeet⟩ := hmeet
      rw [(h.meeting i _ u ht hu hmeet).1, (h'.meeting i _ u ht hu hmeet).1, hsame]
    · have hapart : ∀ u, ts[i + 1]? = some u → ¬ Meet ts[i] u := fun u hu hu' => hmeet ⟨u, hu, hu'⟩
      rw [h.apart i _ ht hapart, h'.apart i _ ht hapart, hsame]

/-- Every place in front of that of a token is one of a token before it, or the one behind such a token. -/
lemma exists_place (h : MarkedAt place ts us) {n j : Nat} (hn : n ≤ ts.length) (hj : j < place n) :
    ∃ i t, ts[i]? = some t ∧ (j = place i ∨ j = place i + 1 ∧ ∃ u, ts[i + 1]? = some u ∧ Meet t u) := by
  induction n with
  | zero =>
    rw [h.first] at hj
    exact absurd hj (Nat.not_lt_zero j)
  | succ n ih =>
    have ht : ts[n]? = some ts[n] := List.getElem?_eq_getElem hn
    by_cases hbefore : j < place n
    · exact ih (Nat.le_of_succ_le hn) hbefore
    by_cases hmeet : ∃ u, ts[n + 1]? = some u ∧ Meet ts[n] u
    · obtain ⟨u, hu, hmeet⟩ := hmeet
      have hnext := (h.meeting n _ u ht hu hmeet).1
      refine ⟨n, _, ht, ?_⟩
      by_cases hhere : j = place n
      · exact .inl hhere
      · exact .inr ⟨by omega, u, hu, hmeet⟩
    · have hnext := h.apart n _ ht fun u hu hu' => hmeet ⟨u, hu, hu'⟩
      exact ⟨n, _, ht, .inl (by omega)⟩

/-- The description leaves no choice. -/
theorem unique (h : MarkedAt place ts us) (h' : MarkedAt place' ts us') : us = us' := by
  have hlength : us.length = us'.length := by
    rw [h.last, h'.last, h.place_eq h' (Nat.le_refl ts.length)]
  apply List.ext_getElem?
  intro j
  by_cases hj : j < us.length
  · rw [h.last] at hj
    obtain ⟨i, t, ht, hplace⟩ := h.exists_place (Nat.le_refl ts.length) hj
    obtain ⟨hi, _⟩ := List.getElem?_eq_some_iff.1 ht
    have hsame := h.place_eq h' (Nat.le_of_lt hi)
    rcases hplace with rfl | ⟨rfl, u, hu, hmeet⟩
    · rw [h.kept i t ht, hsame, h'.kept i t ht]
    · rw [(h.meeting i t u ht hu hmeet).2, hsame, (h'.meeting i t u ht hu hmeet).2]
  · rw [List.getElem?_eq_none (Nat.le_of_not_lt hj), List.getElem?_eq_none (by omega)]

end MarkedAt

theorem markedAt_iff : (∃ place, MarkedAt place ts us) ↔ us = mark ts := by
  constructor
  · rintro ⟨place, h⟩
    exact h.unique (markedAt_mark ts)
  · rintro rfl
    exact ⟨placeIn ts, markedAt_mark ts⟩

/-! ## Marking twice -/

lemma not_meet_marker (t u : Token) : ¬ Meet t (marker u) := by
  rintro ⟨_, hu⟩
  simp [marker] at hu

lemma not_marker_meet (t u : Token) : ¬ Meet (marker t) u := by
  rintro ⟨ht, _⟩
  simp [marker] at ht

lemma head?_mark (ts : List Token) : (mark ts).head? = ts.head? := by
  cases ts with
  | nil => rfl
  | cons t ts => cases ts <;> rfl

/-- No operands meet in the marked tokens. -/
theorem isChain_mark (ts : List Token) : (mark ts).IsChain fun t u => ¬ Meet t u := by
  induction ts with
  | nil => exact .nil
  | cons t ts ih =>
    cases ts with
    | nil => exact .singleton t
    | cons u ts =>
      rw [mark_cons_cons]
      by_cases hmeet : Meet t u
      · have hmarker : (marker u :: mark (u :: ts)).IsChain fun t u => ¬ Meet t u :=
          List.isChain_cons.2 ⟨fun next _ => not_marker_meet u next, ih⟩
        rw [between_of_meet hmeet]
        exact List.isChain_cons_cons.2 ⟨not_meet_marker t u, hmarker⟩
      · rw [between_of_not_meet hmeet, List.nil_append, List.isChain_cons, head?_mark]
        refine ⟨?_, ih⟩
        intro next hnext
        rwa [← Option.some.inj hnext]

/-- Where no operands meet there is nothing to mark. -/
theorem mark_of_isChain (h : ts.IsChain fun t u => ¬ Meet t u) : mark ts = ts := by
  induction ts with
  | nil => rfl
  | cons t ts ih =>
    cases ts with
    | nil => rfl
    | cons u ts =>
      obtain ⟨hmeet, hrest⟩ := List.isChain_cons_cons.1 h
      rw [mark_cons_cons, between_of_not_meet hmeet, List.nil_append, ih hrest]

end Token

/-- Marking keeps the text and the tokens of a stream, whatever its tokens are.  They come to stand in order with one
mark between any two neighbours where an operand ends and another begins, empty and at the start of the second, and with
nothing else; no operands meet after that, and marking again changes nothing. -/
theorem marks_where_operands_meet (s : TokenStream) :
    s.marked.source = s.source ∧
    (∀ us, (∃ place, Token.MarkedAt place s.tokens us) ↔ us = s.marked.tokens) ∧
    (s.marked.tokens.IsChain fun t u => ¬ Token.Meet t u) ∧
    s.marked.marked = s.marked := by
  have hchain := Token.isChain_mark s.tokens
  refine ⟨rfl, fun us => Token.markedAt_iff, hchain, ?_⟩
  show { s with tokens := Token.mark (Token.mark s.tokens) } = s.marked
  rw [Token.mark_of_isChain hchain]
  rfl

/-- In a stream in postfix order the mark that is there stands behind both operands, and another one comes between. -/
example : (TokenStream.ofText ['a', 'b']).marked.postfixed.marked.tokens.map Token.kind =
    [.literal, .concat, .literal, .concat] := by
  decide

end RegexNfa
