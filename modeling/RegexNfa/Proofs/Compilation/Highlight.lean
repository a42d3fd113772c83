import Mathlib.Algebra.Group.Nat.Defs
import RegexNfa.Excerpt
import RegexNfa.Proofs.Compilation.Outcome

/-!
# The highlighted range

An error points at a token or at the whole text.  A token that is read has a character, and a mark stands in front of a
token that is read; so every token begins where a character begins, if it is empty too, and another order of the tokens
changes nothing about that (`starts_of_mem_translated`).  What is highlighted is the span itself if it has a character
(`visibleIn_of_slice_cons`), and otherwise the one that begins there (`visibleIn_of_slice_nil`).  Together: of a text
that is not empty there is always a character to underline (`highlight_visible`).
-/

namespace RegexNfa

/-! ## Spans that can be cut out -/

namespace Span

variable {cs text : List Char} {span : Span}

/-- The span lies in the text and cuts no character. -/
structure Inside (cs : List Char) (span : Span) : Prop where
  start_aligned : Aligned cs span.start
  stop_aligned : Aligned cs span.stop
  stop_le : span.stop ≤ byteLength cs

lemma Inside.of_slice (h : span.slice cs = some text) : span.Inside cs := by
  obtain ⟨before, after, rfl, hstart, hstop⟩ := slice_eq_some.1 h
  refine ⟨⟨before, text ++ after, ?_, hstart⟩, ⟨before ++ text, after, rfl, hstop⟩, ?_⟩
  · rw [List.append_assoc]
  · rw [byteLength_append, hstop]
    exact Nat.le_add_right _ _

lemma slice_upTo (cs : List Char) : (upTo (byteLength cs)).slice cs = some cs := by
  rw [slice_eq_some]
  refine ⟨[], [], ?_, rfl, rfl⟩
  rw [List.nil_append, List.append_nil]

/-- A span with a character in it is shown as it is. -/
lemma visibleIn_of_slice_cons {c : Char} {more : List Char} (h : span.slice cs = some (c :: more)) :
    span.visibleIn cs = span := by
  have hstop := (Inside.of_slice h).stop_le
  have hlt : span.start < span.stop := by
    obtain ⟨before, _, _, hbefore, hmore⟩ := slice_eq_some.1 h
    have hpos := c.utf8Size_pos
    rw [byteLength_append, byteLength_cons] at hmore
    omega
  have hstart : span.start ≤ byteLength cs := Nat.le_trans span.start_le_stop hstop
  simp only [visibleIn, Nat.min_eq_left hstart, Nat.min_eq_left hstop]
  rw [if_neg (Nat.ne_of_lt hlt)]

/-- An empty span is widened to the character that begins there. -/
lemma visibleIn_of_slice_nil (h : span.slice cs = some []) (hlt : span.start < byteLength cs) :
    ∃ c, span.visibleIn cs = ofChar span.start c ∧ (ofChar span.start c).slice cs = some [c] := by
  obtain ⟨before, after, rfl, hstart, hstop⟩ := slice_eq_some.1 h
  rw [List.append_nil] at hstop hlt ⊢
  cases after with
  | nil =>
    rw [List.append_nil, hstart] at hlt
    exact absurd hlt (Nat.lt_irrefl _)
  | cons c after =>
    have hbytes : afterBytes (before ++ c :: after) span.start = some (c :: after) :=
      afterBytes_eq_some.2 ⟨before, rfl, hstart⟩
    have hsame : span.stop = span.start := hstop.symm.trans hstart
    refine ⟨c, ?_, ?_⟩
    · simp only [visibleIn, hsame, Nat.min_eq_left (Nat.le_of_lt hlt), ↓reduceIte, hbytes]
    · rw [← hstart]
      exact slice_ofChar before c after

/-- A span that begins where a character begins is shown from there on, and with a character in it. -/
theorem visibleIn_of_starts (h : span.slice cs = some text) (hlt : span.start < byteLength cs) :
    (span.visibleIn cs).start = span.start ∧ ∃ c more, (span.visibleIn cs).slice cs = some (c :: more) := by
  cases text with
  | nil =>
    obtain ⟨c, hvisible, hslice⟩ := visibleIn_of_slice_nil h hlt
    rw [hvisible]
    exact ⟨rfl, c, [], hslice⟩
  | cons c more =>
    rw [visibleIn_of_slice_cons h]
    exact ⟨rfl, c, more, h⟩

end Span

/-! ## Where errors point -/

variable {source : String} {logging : Bool} {failure : Failure}

/-- A compilation that fails finds the expression invalid, and points at the whole text or at a token. -/
lemma exists_invalid_of_failed (h : compile source logging = .error failure) :
    ∃ e, failure = .invalid e ∧
      (e.span = (translated source).fullSpan ∨ ∃ t ∈ (translated source).tokens, e.span = t.span) := by
  rcases compile_outcome source logging with ⟨_, c, hok, _⟩ | ⟨n, _, _, hfails⟩ |
    ⟨before, t, after, m, htokens, _, _, hfails⟩
  · rw [h] at hok
    exact absurd hok (by simp)
  · rw [h] at hfails
    exact ⟨_, Except.error.inj hfails, .inl rfl⟩
  · rw [h] at hfails
    refine ⟨_, Except.error.inj hfails, .inr ⟨t, ?_, rfl⟩⟩
    rw [htokens]
    exact List.mem_append_right before List.mem_cons_self

/-- A token that is read begins before the text ends, and so does the mark in front of it. -/
lemma starts_of_mem_translated {t : Token} (ht : t ∈ (translated source).tokens) :
    t.span.start < byteLength source.toList := by
  have hread : ∀ u ∈ Token.scanFrom 0 source.toList, u.span.start < byteLength source.toList := by
    intro u hu
    obtain ⟨c, hcovers⟩ : ∃ c, Token.Covers source.toList c u := Token.exists_covers [] source.toList hu
    have hinside := (Span.Inside.of_slice (Token.text_eq_ok.1 hcovers.text)).stop_le
    have hsize := hcovers.size
    have hpos := c.utf8Size_pos
    omega
  have hmarked := Token.forall_mem_mark (p := fun u => u.span.start < byteLength source.toList) (fun _ hu => hu) hread
  exact hmarked t (Token.postfixFrom_subset [] _ ht)

/-- If a text that is not empty fails to compile, the error lies in the text and cuts no character.  So does the range
that is highlighted for it, which starts where the error does and has a character in it. -/
theorem highlight_visible (hne : source ≠ "") (hsize : byteLength source.toList < 2 ^ 32)
    (h : compile source logging = .error failure) :
    ∃ e, failure = .invalid e ∧ e.span.Inside source.toList ∧ e.span.stop < 2 ^ 32 ∧
      (e.span.visibleIn source.toList).Inside source.toList ∧
      (e.span.visibleIn source.toList).start = e.span.start ∧
      ∃ c more, (e.span.visibleIn source.toList).slice source.toList = some (c :: more) := by
  obtain ⟨e, hfailure, hspan⟩ := exists_invalid_of_failed h
  have hcut : ∃ text, e.span.slice source.toList = some text := by
    rcases hspan with hfull | ⟨t, ht, hspan⟩
    · rw [hfull]
      exact ⟨_, Span.slice_upTo source.toList⟩
    · obtain ⟨cs, hcs, _⟩ := (fits_translated source t ht).readable
      rw [hspan]
      exact ⟨cs, Token.text_eq_ok.1 hcs⟩
  have hstarts : e.span.start < byteLength source.toList := by
    rcases hspan with hfull | ⟨t, ht, hspan⟩
    · have hnonempty : byteLength source.toList ≠ 0 := by
        rw [Ne, byteLength_eq_zero, String.toList_eq_nil_iff]
        exact hne
      rw [hfull]
      exact Nat.pos_of_ne_zero hnonempty
    · rw [hspan]
      exact starts_of_mem_translated ht
  obtain ⟨text, hslice⟩ := hcut
  have hinside := Span.Inside.of_slice hslice
  obtain ⟨hstart, c, more, hvisible⟩ := Span.visibleIn_of_starts hslice hstarts
  exact ⟨e, hfailure, hinside, Nat.lt_of_le_of_lt hinside.stop_le hsize, .of_slice hvisible, hstart, c, more,
    hvisible⟩

/-- The mark between the group and the letter, which takes two bytes, finds no operand on its left; the letter is
underlined for it. -/
theorem highlight_visible_mark :
    "()é" ≠ "" ∧ byteLength "()é".toList < 2 ^ 32 ∧
    compile "()é" = .error (.invalid ⟨.missingOperand .concat, .emptyAt 2⟩) ∧
    (Span.emptyAt 2).Inside "()é".toList ∧
    ∃ c more, ((Span.emptyAt 2).visibleIn "()é".toList).slice "()é".toList = some (c :: more) := by
  have hne : "()é" ≠ "" := by decide
  have hsize : byteLength "()é".toList < 2 ^ 32 := by decide
  have hfails : compile "()é" = .error (.invalid ⟨.missingOperand .concat, .emptyAt 2⟩) := by decide
  obtain ⟨e, hinvalid, hinside, _, _, _, hvisible⟩ := highlight_visible hne hsize hfails
  obtain rfl := Failure.invalid.inj hinvalid
  exact ⟨hne, hsize, hfails, hinside, hvisible⟩

end RegexNfa
