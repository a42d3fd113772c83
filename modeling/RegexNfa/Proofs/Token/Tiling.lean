import Mathlib.Algebra.Group.Nat.Defs
import Mathlib.Data.List.Forall2
import RegexNfa.Proofs.Token.Reading
import RegexNfa.Token.Lexeme

/-!
# Tokens tile the text

Reading by longest match comes to reading character by character (`lexed_iff`).  Each character has its token, which
`Covers` it: the token is of the kind whose rule matches the character, and its span cuts out that character and no
other.  The spans follow one another from the first byte to the last (`tile_scanFrom`), so that written out one after
the other the tokens give the text back (`Written.of_covers`).
-/

namespace RegexNfa

namespace Token

variable {source : List Char} {t : Token} {ts : List Token}

/-! ## Longest matches -/

lemma longestMatch_ofChar (c : Char) (rest : List Char) : LongestMatch (.ofChar c) [c] rest := by
  refine ⟨TokenKind.lexeme_ofChar c, ?_⟩
  intro other longer hother _
  obtain ⟨d, rfl, _⟩ := hother.eq_ofChar
  exact Nat.le_refl 1

/-- The longest match is unique at every place, and nothing but a character. -/
theorem lexed_iff {start : Nat} {s : List Char} : Lexed start s ts ↔ ts = scanFrom start s := by
  constructor
  · intro h
    induction h with
    | nil start => rfl
    | @cons start kind lexeme rest ts longest _ ih =>
      obtain ⟨c, rfl, rfl⟩ := longest.1.eq_ofChar
      rw [ih]
      rfl
  · rintro rfl
    induction s generalizing start with
    | nil => exact .nil start
    | cons c s ih => exact .cons (longestMatch_ofChar c s) ih

/-! ## Each character has its token -/

lemma text_eq_ok {cs : List Char} : t.text source = .ok cs ↔ t.span.slice source = some cs := by
  unfold text
  cases t.span.slice source with
  | none => simp
  | some ds => simp

/-- The token stands for the character: a rule makes it of its kind, and the text at its span is the character. -/
structure Covers (source : List Char) (c : Char) (t : Token) : Prop where
  lexeme : t.kind.Lexeme [c]
  size : t.span.stop = t.span.start + c.utf8Size
  text : t.text source = .ok [c]
  literal : t.literal? source = .ok (if t.kind = .literal then some c else none)

lemma covers_ofChar (before : List Char) (c : Char) (after : List Char) :
    Covers (before ++ c :: after) c ⟨.ofChar c, .ofChar (byteLength before) c⟩ := by
  have htext : text (before ++ c :: after) ⟨.ofChar c, .ofChar (byteLength before) c⟩ = .ok [c] :=
    text_eq_ok.2 (Span.slice_ofChar before c after)
  refine ⟨TokenKind.lexeme_ofChar c, rfl, htext, ?_⟩
  rw [literal?, htext]
  split <;> rfl

/-- What is read from the second half of a text covers that half, in the whole of it. -/
theorem covers_scanFrom (before s : List Char) :
    List.Forall₂ (Covers (before ++ s)) s (scanFrom (byteLength before) s) := by
  induction s generalizing before with
  | nil => exact .nil
  | cons c s ih =>
    have hplace : byteLength before + c.utf8Size = byteLength (before ++ [c]) := by
      rw [byteLength_append]
      rfl
    have hlater := ih (before ++ [c])
    rw [← hplace, List.append_assoc, List.singleton_append] at hlater
    exact .cons (covers_ofChar before c s) hlater

/-- What is read from the second half of a text stands for characters. -/
lemma exists_covers (before s : List Char) (ht : t ∈ scanFrom (byteLength before) s) :
    ∃ c, Covers (before ++ s) c t := by
  obtain ⟨i, hi, rfl⟩ := List.mem_iff_getElem.1 ht
  have hlength : i < s.length := by
    rwa [length_scanFrom] at hi
  exact ⟨s[i], List.Forall₂.get (covers_scanFrom before s) hlength hi⟩

end Token

/-! ## The spans in a row -/

namespace Span

variable {start stop : Nat} {spans : List Span}

lemma Tile.le (h : Tile start stop spans) : start ≤ stop := by
  induction spans generalizing start with
  | nil => exact Nat.le_of_eq h
  | cons s spans ih =>
    obtain ⟨rfl, hrest⟩ := h
    exact Nat.le_trans s.start_le_stop (ih hrest)

/-- No span reaches beyond the last. -/
lemma Tile.stop_le (h : Tile start stop spans) : ∀ s ∈ spans, s.stop ≤ stop := by
  induction spans generalizing start with
  | nil =>
    intro s hs
    exact absurd hs List.not_mem_nil
  | cons s spans ih =>
    exact List.forall_mem_cons.2 ⟨Tile.le h.2, ih h.2⟩

end Span

namespace Token

lemma tile_scanFrom (start : Nat) (s : List Char) :
    Span.Tile start (start + byteLength s) ((scanFrom start s).map Token.span) := by
  induction s generalizing start with
  | nil => rfl
  | cons c s ih =>
    have hrest := ih (start + c.utf8Size)
    rw [Nat.add_assoc] at hrest
    exact ⟨rfl, hrest⟩

/-! ## The tokens written out -/

/-- Written out one after the other, the tokens give the text. -/
def Written (source : List Char) (ts : List Token) (s : List Char) : Prop :=
  List.flatten <$> ts.mapM (display source) = .ok s

lemma Written.nil : Written source [] [] := rfl

lemma Written.cons {piece s : List Char} (ht : t.display source = .ok piece) (hts : Written source ts s) :
    Written source (t :: ts) (piece ++ s) := by
  unfold Written at hts ⊢
  rw [List.mapM_cons, ht]
  cases hpieces : ts.mapM (display source) with
  | error fault =>
    rw [hpieces] at hts
    exact absurd hts (by simp)
  | ok pieces =>
    rw [hpieces] at hts
    have hs : pieces.flatten = s := Except.ok.inj hts
    rw [← hs]
    rfl

/-- A token that covers a character is written as that character. -/
lemma Covers.display {c : Char} (h : Covers source c t) : t.display source = .ok [c] := by
  have htext := h.text
  have hlexeme := h.lexeme
  unfold Token.display
  cases hkind : t.kind with
  | literal => exact htext
  | union | star | parenOpen | parenClose =>
    rw [hkind] at hlexeme
    cases hlexeme
    rfl
  | concat =>
    -- concatenation has no rule
    rw [hkind] at hlexeme
    exact nomatch hlexeme

/-- Tokens that stand for characters are written as these. -/
lemma Written.of_covers {cs : List Char} (h : List.Forall₂ (Covers source) cs ts) : Written source ts cs := by
  induction h with
  | nil => exact .nil
  | cons hcovers _ ih => exact .cons hcovers.display ih

end Token

/-- Reading a text by longest match gives one token for each character, in order: of the kind whose rule matches the
character, and with the bytes of the character for its span.  The spans follow one another from the start of the text to
its end, the places are numbers of 32 bits, and written out the tokens are the text. -/
theorem reading_tiles_text (source : String) (hsize : byteLength source.toList < 2 ^ 32) :
    (∀ ts, Token.Lexed 0 source.toList ts ↔ ts = (TokenStream.ofText source.toList).tokens) ∧
    List.Forall₂ (Token.Covers source.toList) source.toList (TokenStream.ofText source.toList).tokens ∧
    Span.Tile 0 (byteLength source.toList) ((TokenStream.ofText source.toList).tokens.map Token.span) ∧
    (∀ t ∈ (TokenStream.ofText source.toList).tokens, t.span.stop < 2 ^ 32) ∧
    (TokenStream.ofText source.toList).display = .ok source.toList := by
  have hcovers := Token.covers_scanFrom [] source.toList
  have htile := Token.tile_scanFrom 0 source.toList
  rw [Nat.zero_add] at htile
  refine ⟨fun ts => Token.lexed_iff, hcovers, htile, ?_, Token.Written.of_covers hcovers⟩
  intro t ht
  exact Nat.lt_of_le_of_lt (htile.stop_le t.span (List.mem_map_of_mem ht)) hsize

/-- Characters of two, one and four bytes, the newline and the point among them. -/
theorem reading_tiles_text_wide :
    byteLength "é|\n.(😀".toList < 2 ^ 32 ∧
    Token.Lexed 0 "é|\n.(😀".toList
      [⟨.literal, .ofChar 0 'é'⟩, ⟨.union, .ofChar 2 '|'⟩, ⟨.literal, .ofChar 3 '\n'⟩, ⟨.literal, .ofChar 4 '.'⟩,
        ⟨.parenOpen, .ofChar 5 '('⟩, ⟨.literal, .ofChar 6 '😀'⟩] ∧
    (TokenStream.ofText "é|\n.(😀".toList).display = .ok "é|\n.(😀".toList := by
  have hsize : byteLength "é|\n.(😀".toList < 2 ^ 32 := by decide
  obtain ⟨hlexed, _, _, _, hdisplay⟩ := reading_tiles_text "é|\n.(😀" hsize
  exact ⟨hsize, (hlexed _).2 rfl, hdisplay⟩

end RegexNfa
