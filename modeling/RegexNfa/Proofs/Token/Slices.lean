import RegexNfa.Proofs.Token.Sending
import RegexNfa.Proofs.Token.Tiling

/-!
# Tokens point into their text

A token `Fits` a text when its span can be read there: it ends inside the text, cuts no character, and is one
character long if the token is a literal.  Reading gives such tokens, and neither of the two passes after it makes a
token of another kind: marking adds tokens that point at nothing (`fits_mark`), postfix order only moves tokens and
drops some (`postfixFrom_subset`).  So after any pass a literal is read as its character (`Fits.exists_literal`) and the
stream can be written out (`TokenStream.Fits.exists_display`).
-/

namespace RegexNfa

/-- Every character takes a byte at least. -/
lemma length_le_byteLength (cs : List Char) : cs.length ≤ byteLength cs := by
  induction cs with
  | nil => exact Nat.le_refl 0
  | cons c cs ih =>
    have hpos := c.utf8Size_pos
    rw [List.length_cons, byteLength_cons]
    omega

namespace Token

variable {source : List Char} {t : Token} {ts : List Token}

/-- The span of the token can be read in the text, and is one character long if the token is a literal. -/
structure Fits (source : List Char) (t : Token) : Prop where
  inside : t.span.stop ≤ byteLength source
  readable : ∃ cs, t.text source = .ok cs ∧ (t.kind = .literal → ∃ c, cs = [c])

lemma Fits.of_slice {cs : List Char} (h : t.span.slice source = some cs)
    (hliteral : t.kind = .literal → ∃ c, cs = [c]) : t.Fits source := by
  refine ⟨?_, cs, ?_, hliteral⟩
  · obtain ⟨before, after, rfl, _, hstop⟩ := Span.slice_eq_some.1 h
    rw [byteLength_append, hstop]
    omega
  · exact text_eq_ok.2 h

/-- What is read from the second half of a text points into the whole of it. -/
lemma fits_scanFrom (before s : List Char) :
    ∀ t ∈ scanFrom (byteLength before) s, t.Fits (before ++ s) := by
  intro t ht
  obtain ⟨c, hcovers⟩ := exists_covers before s ht
  exact .of_slice (text_eq_ok.1 hcovers.text) fun _ => ⟨c, rfl⟩

/-- A mark points at nothing, between two characters. -/
lemma Fits.marker (h : t.Fits source) : (marker t).Fits source := by
  obtain ⟨_, cs, hcs, _⟩ := h
  obtain ⟨before, after, rfl, hstart, _⟩ := Span.slice_eq_some.1 (text_eq_ok.1 hcs)
  have hempty : (Token.marker t).span.slice (before ++ cs ++ after) = some [] := by
    rw [Span.slice_eq_some]
    refine ⟨before, cs ++ after, ?_, hstart, ?_⟩
    · rw [List.append_nil, List.append_assoc]
    · rw [List.append_nil, hstart]
      rfl
  exact .of_slice hempty fun hkind => absurd hkind (by simp [Token.marker])

/-- A token that fits can be written out. -/
lemma Fits.exists_display (h : t.Fits source) : ∃ cs, t.display source = .ok cs := by
  unfold display
  split
  · exact ⟨_, rfl⟩
  · obtain ⟨cs, hcs, _⟩ := h.readable
    exact ⟨cs, hcs⟩

/-- A literal that fits is read as its character. -/
lemma Fits.exists_literal (h : t.Fits source) (hkind : t.kind = .literal) :
    ∃ c, t.literal? source = .ok (some c) := by
  obtain ⟨cs, hcs, hliteral⟩ := h.readable
  obtain ⟨c, rfl⟩ := hliteral hkind
  refine ⟨c, ?_⟩
  rw [literal?, if_pos hkind, hcs]
  rfl

lemma fits_mark (h : ∀ t ∈ ts, t.Fits source) : ∀ t ∈ mark ts, t.Fits source :=
  forall_mem_mark (fun _ ht => ht.marker) h

/-! ## Postfix order makes no tokens -/

/-- What a token sends out, and what waits then, is the token itself or waited before. -/
lemma Sends.subset {waiting out waiting' : List Token} (h : Sends t waiting out waiting') :
    out ++ waiting' ⊆ waiting ++ [t] := by
  cases h with
  | literal kind => simp
  | operator kind above => simp
  | opening kind => simp
  | closing kind above partner =>
    intro u hu
    rcases List.mem_append.1 hu with hinner | houter
    · simp [hinner]
    · simp [houter]
  | stray kind above => simp

theorem postfixFrom_subset (waiting ts : List Token) : postfixFrom waiting ts ⊆ waiting ++ ts := by
  induction ts generalizing waiting with
  | nil =>
    rw [List.append_nil]
    exact List.Subset.refl waiting
  | cons t ts ih =>
    obtain ⟨out, waiting', hsends, hsent⟩ := exists_sends t waiting
    have hstep := hsends.subset
    rw [List.append_subset] at hstep
    rw [hsent, List.append_cons, List.append_subset]
    refine ⟨List.subset_append_of_subset_left ts hstep.1, ?_⟩
    refine List.Subset.trans (ih waiting') ?_
    rw [List.append_subset]
    exact ⟨List.subset_append_of_subset_left ts hstep.2, List.subset_append_right _ ts⟩

end Token

namespace TokenStream

/-- Every token fits the text of the stream. -/
def Fits (s : TokenStream) : Prop :=
  ∀ t ∈ s.tokens, t.Fits s.source

lemma fits_ofText (source : List Char) : (ofText source).Fits :=
  Token.fits_scanFrom [] source

lemma Fits.marked {s : TokenStream} (h : s.Fits) : s.marked.Fits :=
  Token.fits_mark h

lemma Fits.postfixed {s : TokenStream} (h : s.Fits) : s.postfixed.Fits := by
  intro t ht
  exact h t (Token.postfixFrom_subset [] s.tokens ht)

/-- A stream whose tokens fit can be written out. -/
theorem Fits.exists_display {s : TokenStream} (h : s.Fits) : ∃ cs, s.display = .ok cs := by
  obtain ⟨source, tokens⟩ := s
  have hwritten : ∃ cs, Token.Written source tokens cs := by
    induction tokens with
    | nil => exact ⟨[], .nil⟩
    | cons t ts ih =>
      obtain ⟨ht, hrest⟩ := List.forall_mem_cons.1 h
      obtain ⟨piece, hpiece⟩ := ht.exists_display
      obtain ⟨cs, hcs⟩ := ih hrest
      exact ⟨piece ++ cs, .cons hpiece hcs⟩
  exact hwritten

end TokenStream

end RegexNfa
