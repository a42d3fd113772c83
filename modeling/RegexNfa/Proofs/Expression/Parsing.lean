import RegexNfa.Proofs.Token.Operands
import RegexNfa.Proofs.Token.Reading

/-!
# Every text without slips is an expression

A parse from left to right, as a relation.  `Awaits phrase n s` says that such a phrase may come after `s`,
where `n` brackets are open, and `Completes phrase n s` that one has just ended there.  Whether an operand
ends at a place decides between the two: where none does an atom is awaited, where one does a repetition is
complete.

One character keeps this invariant as long as it makes no slip and closes only what is open.  So a text
without slips whose brackets all have partners and which ends with an operand is an alternation from its
first character on (`exists_spells_of_slips`).
-/

namespace RegexNfa

/-- After `s`, inside of `n` brackets, such a phrase may stand. -/
inductive Awaits : Phrase → Nat → List Char → Prop where
  | start : Awaits .alternation 0 []
  | bracket {n : Nat} {s : List Char} (outside : Awaits .atom n s) :
      Awaits .alternation (n + 1) (s ++ ['('])
  | first {n : Nat} {s : List Char} (h : Awaits .alternation n s) : Awaits .sequence n s
  | alternative {n : Nat} {s u : List Char} {t : ParseTree} (h : Awaits .alternation n s)
      (left : Derives .alternation (byteLength s) u t) : Awaits .sequence n (s ++ (u ++ ['|']))
  | front {n : Nat} {s : List Char} (h : Awaits .sequence n s) : Awaits .repetition n s
  | beside {n : Nat} {s u : List Char} {t : ParseTree} (h : Awaits .sequence n s)
      (left : Derives .sequence (byteLength s) u t) : Awaits .repetition n (s ++ u)
  | operand {n : Nat} {s : List Char} (h : Awaits .repetition n s) : Awaits .atom n s

/-- Such a phrase ends with `s`, inside of `n` brackets. -/
def Completes (phrase : Phrase) (n : Nat) (s : List Char) : Prop :=
  ∃ before u t, s = before ++ u ∧ Awaits phrase n before ∧ Derives phrase (byteLength before) u t

variable {n : Nat} {s : List Char} {c : Char}

/-! ## Phrases inside of looser phrases -/

/-- Where an alternative may stand, a factor may. -/
lemma Awaits.atom_of_sequence (h : Awaits .sequence n s) : Awaits .atom n s :=
  .operand (.front h)

lemma Awaits.atom_of_alternation (h : Awaits .alternation n s) : Awaits .atom n s :=
  .operand (.front (.first h))

namespace Completes

lemma repetition (h : Completes .atom n s) : Completes .repetition n s := by
  obtain ⟨before, u, t, rfl, hawaits, hderives⟩ := h
  cases hawaits with
  | operand hawaits => exact ⟨before, u, t, rfl, hawaits, .atom hderives⟩

/-- A repetition ends a sequence, alone or beside what stands before it. -/
lemma sequence (h : Completes .repetition n s) : Completes .sequence n s := by
  obtain ⟨before, u, t, rfl, hawaits, hderives⟩ := h
  cases hawaits with
  | front hawaits => exact ⟨before, u, t, rfl, hawaits, .repetition hderives⟩
  | @beside _ s v l hawaits left =>
    rw [byteLength_append] at hderives
    exact ⟨s, v ++ u, _, List.append_assoc _ _ _, hawaits, .concat left hderives⟩

/-- A sequence ends an alternation, alone or after the alternatives before it. -/
lemma alternation (h : Completes .sequence n s) : Completes .alternation n s := by
  obtain ⟨before, u, t, rfl, hawaits, hderives⟩ := h
  cases hawaits with
  | first hawaits => exact ⟨before, u, t, rfl, hawaits, .sequence hderives⟩
  | @alternative _ s v l hawaits left =>
    rw [byteLength_append, byteLength_append] at hderives
    refine ⟨s, v ++ '|' :: u, _, ?_, hawaits, .union left hderives⟩
    rw [List.append_assoc, List.append_assoc, List.singleton_append]

/-- An alternation that ends outside of all brackets is the whole text. -/
lemma spells (h : Completes .alternation 0 s) : ∃ tree, Spells s tree := by
  obtain ⟨before, u, t, rfl, hawaits, hderives⟩ := h
  cases hawaits with
  | start => exact ⟨t, hderives⟩

/-! ## One character -/

lemma literal (h : Awaits .atom n s) (hc : TokenKind.ofChar c = .literal) :
    Completes .repetition n (s ++ [c]) :=
  repetition ⟨s, [c], _, rfl, h, .literal hc⟩

/-- What stands beside a complete factor is the next one. -/
lemma awaits_factor (h : Completes .repetition n s) : Awaits .atom n s := by
  obtain ⟨before, u, t, rfl, hawaits, hderives⟩ := h.sequence
  exact .operand (.beside hawaits hderives)

lemma awaits_alternative (h : Completes .repetition n s) : Awaits .atom n (s ++ ['|']) := by
  obtain ⟨before, u, t, rfl, hawaits, hderives⟩ := h.sequence.alternation
  rw [List.append_assoc]
  exact Awaits.atom_of_sequence (.alternative hawaits hderives)

lemma star (h : Completes .repetition n s) : Completes .repetition n (s ++ ['*']) := by
  obtain ⟨before, u, t, rfl, hawaits, hderives⟩ := h
  exact ⟨before, u ++ ['*'], _, List.append_assoc _ _ _, hawaits, .star hderives⟩

lemma group (h : Completes .repetition (n + 1) s) : Completes .repetition n (s ++ [')']) := by
  obtain ⟨before, u, t, rfl, hawaits, hderives⟩ := h.sequence.alternation
  -- inside of a bracket an alternation starts right after that bracket, never at the start of the text
  cases hawaits with
  | @bracket _ s outside =>
    rw [byteLength_append] at hderives
    refine repetition ⟨s, '(' :: (u ++ [')']), t, ?_, outside, .group hderives⟩
    rw [List.append_assoc, List.append_assoc, List.singleton_append]

end Completes

/-! ## A whole text -/

/-- The invariant: where an operand ends a repetition is complete, elsewhere an atom is awaited. -/
def Parsed (ends : Bool) (n : Nat) (s : List Char) : Prop :=
  if ends then Completes .repetition n s else Awaits .atom n s

lemma Parsed.awaits_atom {ends : Bool} (h : Parsed ends n s) : Awaits .atom n s := by
  cases ends with
  | false => exact h
  | true => exact Completes.awaits_factor h

/-- An operand ends before a token that needs one and makes no slip. -/
lemma Parsed.completes {ends : Bool} {t : Token} (h : Parsed ends n s)
    (hfollows : t.kind.followsOperand = true) (hslip : Token.slip ends t = 0) :
    Completes .repetition n s := by
  cases ends with
  | true => exact h
  | false =>
    rw [Token.slip, hfollows] at hslip
    exact absurd hslip (by decide)

lemma TokenKind.ofChar_cases (c : Char) :
    (ofChar c = .union ∧ c = '|') ∨ (ofChar c = .star ∧ c = '*') ∨ (ofChar c = .parenOpen ∧ c = '(') ∨
      (ofChar c = .parenClose ∧ c = ')') ∨ ofChar c = .literal := by
  unfold ofChar
  repeat' split
  all_goals simp_all

open Token in
/-- One character without slip keeps the invariant, and closes at most what is open. -/
lemma Parsed.step {ends : Bool} {opens ts : List Token} {span : Span} (h : Parsed ends opens.length s)
    (hslip : slip ends ⟨.ofChar c, span⟩ = 0)
    (hpaired : unpaired id opens (⟨.ofChar c, span⟩ :: ts) = []) :
    ∃ opens' : List Token, Parsed (TokenKind.ofChar c).endsOperand opens'.length (s ++ [c]) ∧
      unpaired id opens' ts = [] := by
  rcases TokenKind.ofChar_cases c with ⟨hc, rfl⟩ | ⟨hc, rfl⟩ | ⟨hc, rfl⟩ | ⟨hc, rfl⟩ | hc
  · have hparsed := (h.completes rfl hslip).awaits_alternative
    exact ⟨opens, hparsed, hpaired⟩
  · have hparsed := (h.completes rfl hslip).star
    exact ⟨opens, hparsed, hpaired⟩
  · have hparsed := Awaits.atom_of_alternation (.bracket h.awaits_atom)
    exact ⟨_ :: opens, hparsed, hpaired⟩
  · cases opens with
    | nil => exact absurd hpaired (List.cons_ne_nil _ _)
    | cons o outer =>
      have hparsed := (h.completes rfl hslip).group
      exact ⟨outer, hparsed, hpaired⟩
  · have hparsed := Completes.literal h.awaits_atom hc
    rw [unpaired_plain (by rw [id, hc]; rfl)] at hpaired
    rw [hc]
    exact ⟨opens, hparsed, hpaired⟩

open Token in
/-- The run lemma: the rest of a text that makes no slip completes it. -/
theorem Parsed.exists_spells {ends : Bool} {opens : List Token} {rest : List Char}
    (h : Parsed ends opens.length s) (hslips : slips ends (scanFrom (byteLength s) rest) = 0)
    (hpaired : unpaired id opens (scanFrom (byteLength s) rest) = [])
    (hends : endsAfter ends (scanFrom (byteLength s) rest) = true) :
    ∃ tree, Spells (s ++ rest) tree := by
  induction rest generalizing ends opens s with
  | nil =>
    have hopens : opens = [] := hpaired
    have hlast : ends = true := hends
    subst hopens hlast
    rw [List.append_nil]
    exact (Completes.alternation (Completes.sequence h)).spells
  | cons c rest ih =>
    have hplace : byteLength (s ++ [c]) = byteLength s + c.utf8Size := byteLength_append s [c]
    rw [scanFrom, ← hplace] at hslips hpaired hends
    obtain ⟨hslip, hslips⟩ := Nat.add_eq_zero_iff.1 hslips
    obtain ⟨opens', hparsed, hpaired⟩ := h.step hslip hpaired
    obtain ⟨tree, htree⟩ := ih hparsed hslips hpaired hends
    rw [List.append_assoc] at htree
    exact ⟨tree, htree⟩

/-- A text spells an expression if it makes no slip, ends with an operand and has a partner for every
bracket. -/
theorem exists_spells_of_slips {source : List Char}
    (hslips : Token.slips false (Token.scanFrom 0 source) = 0)
    (hends : Token.endsAfter false (Token.scanFrom 0 source) = true)
    (hpaired : Token.unpaired id [] (Token.scanFrom 0 source) = []) : ∃ tree, Spells source tree := by
  have hstart : Parsed false ([] : List Token).length [] := Awaits.atom_of_alternation .start
  exact hstart.exists_spells hslips hpaired hends

end RegexNfa
