import RegexNfa.Proofs.Token.Operands
import RegexNfa.Proofs.Token.Tiling

/-!
# The explicit form is unambiguous

A marked text is written with a point for each mark, and a point may also be a character of the text.  The two cannot be
taken for each other: right after an operand a point is a mark, since a character that begins an operand never stands
there without one, and anywhere else it is a character (`eq_of_lead_append`).  Read from the left, with what ends right
before, the explicit form therefore gives away one character of the text after the other (`explicitFrom_injective`).
-/

namespace RegexNfa

open TokenKind

/-- How a character is written in the explicit form, if `ends` says whether an operand ends before it. -/
def lead (ends : Bool) (c : Char) : List Char :=
  if ends && (ofChar c).startsOperand then ['.', c] else [c]

/-- The explicit form of a text, if `ends` says whether an operand ends before it. -/
def explicitFrom (ends : Bool) : List Char → List Char
  | [] => []
  | c :: cs => lead ends c ++ explicitFrom (ofChar c).endsOperand cs

/-! ## What the marked tokens write -/

namespace Token

variable {source cs : List Char} {ts : List Token}

lemma written_markAfter (h : List.Forall₂ (Covers source) cs ts) (ends : Bool) :
    Written source (markAfter ends ts) (explicitFrom ends cs) := by
  induction h generalizing ends with
  | nil => exact .nil
  | @cons c t cs ts hcovers _ ih =>
    obtain ⟨d, hd, hkind⟩ := hcovers.lexeme.eq_ofChar
    obtain rfl := List.singleton_inj.1 hd
    have hmarker : (marker t).display source = .ok ['.'] := rfl
    have hrest := Written.cons hcovers.display (ih t.kind.endsOperand)
    have hmarked := Written.cons hmarker hrest
    rw [markAfter, explicitFrom, joined, lead, ← hkind]
    split
    · exact hmarked
    · exact hrest

end Token

theorem display_marked (source : List Char) :
    (TokenStream.ofText source).marked.display = .ok (explicitFrom false source) := by
  have hwritten := Token.written_markAfter (Token.covers_scanFrom [] source) false
  rw [Token.markAfter_false] at hwritten
  exact hwritten

/-! ## Reading it back -/

lemma lead_ne_nil (ends : Bool) (c : Char) : lead ends c ≠ [] := by
  unfold lead
  split <;> exact List.cons_ne_nil _ _

/-- What is written first gives the first character away. -/
lemma eq_of_lead_append {ends : Bool} {c d : Char} {u v : List Char} (h : lead ends c ++ u = lead ends d ++ v) :
    c = d ∧ u = v := by
  -- a point that is no mark is a character that would need one
  have hpoint : (ofChar '.').startsOperand = true := rfl
  unfold lead at h
  split at h <;> split at h
  · exact List.cons.inj (List.cons.inj h).2
  · rename_i hc hd
    obtain ⟨rfl, _⟩ := List.cons.inj h
    rw [Bool.and_eq_true] at hc
    exact absurd (Bool.and_eq_true_iff.2 ⟨hc.1, hpoint⟩) hd
  · rename_i hc hd
    obtain ⟨rfl, _⟩ := List.cons.inj h
    rw [Bool.and_eq_true] at hd
    exact absurd (Bool.and_eq_true_iff.2 ⟨hd.1, hpoint⟩) hc
  · exact List.cons.inj h

theorem explicitFrom_injective (ends : Bool) : Function.Injective (explicitFrom ends) := by
  intro s
  induction s generalizing ends with
  | nil =>
    intro t h
    cases t with
    | nil => rfl
    | cons d t =>
      have hlead := (List.append_eq_nil_iff.1 h.symm).1
      exact absurd hlead (lead_ne_nil ends d)
  | cons c s ih =>
    intro t h
    cases t with
    | nil =>
      have hlead := (List.append_eq_nil_iff.1 h).1
      exact absurd hlead (lead_ne_nil ends c)
    | cons d t =>
      obtain ⟨rfl, hrest⟩ := eq_of_lead_append h
      rw [ih _ hrest]

/-- Every text has an explicit form, whether it is an expression or not, and no two texts have the same. -/
theorem explicit_form_unambiguous (s t : String) :
    (∃ u, (TokenStream.ofText s.toList).marked.display = .ok u) ∧
    ((TokenStream.ofText s.toList).marked.display = (TokenStream.ofText t.toList).marked.display ↔ s = t) := by
  refine ⟨⟨_, display_marked s.toList⟩, ?_⟩
  constructor
  · intro h
    rw [display_marked, display_marked] at h
    exact String.toList_inj.1 (explicitFrom_injective false (Except.ok.inj h))
  · rintro rfl
    rfl

/-- The postfix form does not tell texts apart. -/
example : (TokenStream.ofText ['a', 'b']).marked.postfixed.display =
    (TokenStream.ofText ['(', 'a', 'b', ')']).marked.postfixed.display := by
  rfl

end RegexNfa
