import RegexNfa.Expression.Grammar
import RegexNfa.Token.Marking
import Mathlib.Tactic.Lemma

/-!
# Reading and marking piece by piece

A text is read in pieces when the second piece starts where the first one ends (`scanFrom_append`), and
marked in pieces when what belongs between the two is written at the seam (`mark_append`).  What a seam
holds depends on the last token of one piece and on the first of the other: for the tokens of a phrase these
are `Derives.getLast_endsOperand` and `Derives.head_startsOperand`.  Of marks only two things matter elsewhere:
each comes from the token after it (`forall_mem_mark`), and a filter that lets none through does not see them
(`filter_mark`).

A literal of a parse tree is read back as its character, wherever in the text the phrase stands
(`Derives.readFrom`).
-/

namespace RegexNfa

/-- The bytes of a character cut out that character. -/
lemma Span.slice_ofChar (before : List Char) (c : Char) (after : List Char) :
    (Span.ofChar (byteLength before) c).slice (before ++ c :: after) = some [c] := by
  rw [Span.slice_eq_some]
  refine ⟨before, after, ?_, rfl, ?_⟩
  · rw [List.append_assoc, List.singleton_append]
  · rw [byteLength_append, byteLength_cons, byteLength_nil, Nat.add_zero]
    rfl

namespace Token

lemma scanFrom_append (offset : Nat) (s u : List Char) :
    scanFrom offset (s ++ u) = scanFrom offset s ++ scanFrom (offset + byteLength s) u := by
  induction s generalizing offset with
  | nil => rfl
  | cons c s ih =>
    have hoffset : offset + c.utf8Size + byteLength s = offset + byteLength (c :: s) := by
      rw [byteLength_cons, Nat.add_assoc]
    rw [List.cons_append, scanFrom, scanFrom, List.cons_append, ih, hoffset]

lemma kind_ne_concat_of_mem_scanFrom {offset : Nat} {s : List Char} :
    ∀ t ∈ scanFrom offset s, t.kind ≠ .concat := by
  induction s generalizing offset with
  | nil =>
    intro t ht
    exact absurd ht List.not_mem_nil
  | cons c s ih => exact List.forall_mem_cons.2 ⟨TokenKind.ofChar_ne_concat c, ih⟩

/-- The token of a character points at that character. -/
lemma literal?_ofChar {before after : List Char} {c : Char} :
    literal? (before ++ c :: after) ⟨.literal, .ofChar (byteLength before) c⟩ = .ok (some c) := by
  rw [literal?, if_pos rfl, text, Span.slice_ofChar]
  rfl

/-! ## Seams -/

/-- What marking writes between two pieces. -/
def seam (ts us : List Token) : List Token :=
  match ts.getLast?, us.head? with
  | some left, some right => between left right
  | _, _ => []

lemma seam_concat_cons (ts us : List Token) (left right : Token) :
    seam (ts ++ [left]) (right :: us) = between left right := by
  rw [seam, List.getLast?_concat]
  rfl

lemma mark_append (ts us : List Token) : mark (ts ++ us) = mark ts ++ (seam ts us ++ mark us) := by
  induction ts with
  | nil => rfl
  | cons t ts ih =>
    cases ts with
    | nil =>
      cases us with
      | nil => rfl
      | cons u us => rfl
    | cons next ts =>
      have hseam : seam (t :: next :: ts) us = seam (next :: ts) us := by
        rw [seam, seam, List.getLast?_cons_cons]
      have hcons : mark (t :: next :: ts ++ us) = t :: (between t next ++ mark (next :: ts ++ us)) := rfl
      rw [hcons, ih, hseam, mark_cons_cons, List.cons_append, List.append_assoc]

/-- Nothing is written in front of a token that starts no operand. -/
lemma mark_append_cons {u : Token} (hu : u.kind.startsOperand = false) (ts us : List Token) :
    mark (ts ++ u :: us) = mark ts ++ mark (u :: us) := by
  have hseam : seam ts (u :: us) = [] := by
    rw [seam]
    cases ts.getLast? with
    | none => rfl
    | some t =>
      show between t u = []
      rw [between, TokenKind.juxtaposed, hu, Bool.and_false, if_neg Bool.false_ne_true]
  rw [mark_append, hseam, List.nil_append]

/-- Nothing is written after a token that ends no operand. -/
lemma mark_cons {t : Token} (ht : t.kind.endsOperand = false) (us : List Token) :
    mark (t :: us) = t :: mark us := by
  cases us with
  | nil => rfl
  | cons u us =>
    rw [mark_cons_cons, between, TokenKind.juxtaposed, ht, Bool.false_and, if_neg Bool.false_ne_true,
      List.nil_append]

/-- What holds of the tokens, and of the mark in front of a token of which it holds, holds of the marked tokens. -/
lemma forall_mem_mark {p : Token → Prop} {ts : List Token} (hmarker : ∀ t, p t → p (marker t))
    (h : ∀ t ∈ ts, p t) : ∀ t ∈ mark ts, p t := by
  induction ts with
  | nil => exact h
  | cons t ts ih =>
    cases ts with
    | nil => exact h
    | cons next ts =>
      obtain ⟨ht, hrest⟩ := List.forall_mem_cons.1 h
      have hbetween : ∀ u ∈ between t next, p u := by
        unfold between
        split
        · exact List.forall_mem_singleton.2 (hmarker next (hrest next List.mem_cons_self))
        · intro u hu
          exact absurd hu List.not_mem_nil
      rw [mark_cons_cons]
      exact List.forall_mem_cons.2 ⟨ht, List.forall_mem_append.2 ⟨hbetween, ih hrest⟩⟩

/-- A filter that lets no mark through does not see that the tokens are marked. -/
lemma filter_mark {p : Token → Bool} (hmarker : ∀ t, p (marker t) = false) (ts : List Token) :
    (mark ts).filter p = ts.filter p := by
  induction ts with
  | nil => rfl
  | cons t ts ih =>
    cases ts with
    | nil => rfl
    | cons next ts =>
      have hbetween : (between t next).filter p = [] := by
        unfold between
        split
        · rw [List.filter_cons, hmarker, if_neg Bool.false_ne_true, List.filter_nil]
        · rfl
      rw [mark_cons_cons, List.filter_cons, List.filter_append, hbetween, List.nil_append, ih, ← List.filter_cons]

end Token

/-! ## The tokens of a phrase -/

namespace Derives

open Token

variable {phrase : Phrase} {start : Nat} {s : List Char} {t : ParseTree}

/-- The first token of a phrase starts an operand, where the phrase starts. -/
lemma head_startsOperand (h : Derives phrase start s t) :
    ∃ first rest, scanFrom start s = first :: rest ∧ first.kind.startsOperand = true ∧
      first.span.start = start := by
  induction h with
  | @literal start c plain =>
    refine ⟨⟨.ofChar c, .ofChar start c⟩, [], rfl, ?_, rfl⟩
    rw [plain]
    rfl
  | group => exact ⟨_, _, rfl, rfl, rfl⟩
  | atom _ ih => exact ih
  | repetition _ ih => exact ih
  | sequence _ ih => exact ih
  | star _ ih =>
    obtain ⟨first, rest, hscan, hfirst⟩ := ih
    rw [scanFrom_append, hscan]
    exact ⟨first, _, rfl, hfirst⟩
  | concat _ _ ih _ =>
    obtain ⟨first, rest, hscan, hfirst⟩ := ih
    rw [scanFrom_append, hscan]
    exact ⟨first, _, rfl, hfirst⟩
  | union _ _ ih _ =>
    obtain ⟨first, rest, hscan, hfirst⟩ := ih
    rw [scanFrom_append, hscan]
    exact ⟨first, _, rfl, hfirst⟩

/-- The last token of a phrase ends an operand. -/
lemma getLast_endsOperand (h : Derives phrase start s t) :
    ∃ rest last, scanFrom start s = rest ++ [last] ∧ last.kind.endsOperand = true := by
  induction h with
  | @literal start c plain =>
    refine ⟨[], ⟨.ofChar c, .ofChar start c⟩, rfl, ?_⟩
    rw [plain]
    rfl
  | @group start s t _ _ =>
    rw [← List.cons_append, scanFrom_append]
    exact ⟨_, _, rfl, rfl⟩
  | atom _ ih => exact ih
  | repetition _ ih => exact ih
  | sequence _ ih => exact ih
  | star _ _ =>
    rw [scanFrom_append]
    exact ⟨_, _, rfl, rfl⟩
  | concat _ _ _ ih =>
    obtain ⟨rest, last, hscan, hlast⟩ := ih
    rw [scanFrom_append, hscan]
    exact ⟨_, last, (List.append_assoc _ _ _).symm, hlast⟩
  | @union start s u l r _ _ _ ih =>
    obtain ⟨rest, last, hscan, hlast⟩ := ih
    have hbar : scanFrom (start + byteLength s) ('|' :: u) =
        ⟨.union, .ofChar (start + byteLength s) '|'⟩ :: (rest ++ [last]) :=
      congrArg _ hscan
    rw [scanFrom_append, hbar]
    refine ⟨scanFrom start s ++ ⟨.union, .ofChar (start + byteLength s) '|'⟩ :: rest, last, ?_, hlast⟩
    rw [List.append_assoc, List.cons_append]

end Derives

namespace ParseTree

/-- Every literal of the tree is read back from the text where the tree has it. -/
def ReadFrom (source : List Char) : ParseTree → Prop
  | literal c place => Token.literal? source ⟨.literal, .ofChar place c⟩ = .ok (some c)
  | concat l r _ => l.ReadFrom source ∧ r.ReadFrom source
  | union l r _ => l.ReadFrom source ∧ r.ReadFrom source
  | star e _ => e.ReadFrom source

end ParseTree

/-- A phrase inside a text has its literals where its tree has them. -/
lemma Derives.readFrom {phrase : Phrase} {start : Nat} {s before after : List Char} {t : ParseTree}
    (h : Derives phrase start s t) (hstart : byteLength before = start) :
    t.ReadFrom (before ++ (s ++ after)) := by
  induction h generalizing before after with
  | literal _ =>
    subst hstart
    exact Token.literal?_ofChar
  | @group start s t _ ih =>
    have hinner : byteLength (before ++ ['(']) = start + 1 := by
      rw [byteLength_append, hstart]
      rfl
    have hread : t.ReadFrom (before ++ ['('] ++ (s ++ ')' :: after)) := ih hinner
    simpa using hread
  | atom _ ih => exact ih hstart
  | repetition _ ih => exact ih hstart
  | sequence _ ih => exact ih hstart
  | star _ ih =>
    rw [List.append_assoc]
    exact ih hstart
  | @concat start s u l r _ _ ihl ihr =>
    have hright : byteLength (before ++ s) = start + byteLength s := by
      rw [byteLength_append, hstart]
    refine ⟨?_, ?_⟩
    · rw [List.append_assoc]
      exact ihl hstart
    · rw [List.append_assoc, ← List.append_assoc]
      exact ihr hright
  | @union start s u l r _ _ ihl ihr =>
    have hright : byteLength (before ++ (s ++ ['|'])) = start + byteLength s + 1 := by
      rw [byteLength_append, byteLength_append, hstart]
      rfl
    refine ⟨?_, ?_⟩
    · rw [List.append_assoc]
      exact ihl hstart
    · have hread : r.ReadFrom (before ++ (s ++ ['|']) ++ (u ++ after)) := ihr hright
      simpa using hread

lemma Spells.readFrom {source : List Char} {tree : ParseTree} (h : Spells source tree) : tree.ReadFrom source := by
  have hread : tree.ReadFrom ([] ++ (source ++ [])) := Derives.readFrom h rfl
  rwa [List.append_nil, List.nil_append] at hread

end RegexNfa
