import Mathlib.Data.List.Forall2
import RegexNfa.Palette
import RegexNfa.Proofs.Text.Quoted

/-!
# Taking colour off again

A coloured text and a plain one that differ by colour codes alone can be told by deleting the codes, as long as the plain
text brings nothing along that is one, or becomes one where a code is deleted.  `Tinted` says how the two are woven: codes
stand anywhere, and an escape character of the text itself has a blank after it, which no code has.  Whatever is put
together from such pieces is woven so too, and of what is woven so deleting all codes leaves the plain text, with no code
in it (`Tints.decorates`).
-/

namespace RegexNfa

namespace Palette

/-- The codes of a palette that are not empty, as characters. -/
def marks (p : Palette) : List (List Char) :=
  (p.codes.filter (· ≠ "")).map String.toList

/-- The characters without the codes that start among them, from left to right.  Of a code that has been met, `skip`
characters are still to be dropped. -/
def eraseFrom (marks : List (List Char)) : (skip : Nat) → List Char → List Char
  | _, [] => []
  | skip + 1, _ :: rest => eraseFrom marks skip rest
  | 0, c :: rest =>
    match marks.find? (·.isPrefixOf (c :: rest)) with
    | some code => eraseFrom marks (code.length - 1) rest
    | none => c :: eraseFrom marks 0 rest

/-- The text without the codes of the palette. -/
def erase (p : Palette) (text : String) : String :=
  String.ofList (eraseFrom p.marks 0 text.toList)

lemma marks_on : on.marks = ["\x1b[34m".toList, "\x1b[32m".toList, "\x1b[31m".toList, "\x1b[2m".toList,
    "\x1b[0m".toList] := by
  decide

lemma mem_marks : ∀ code ∈ on.codes, code.toList ∈ on.marks := by
  decide

/-- How every code begins. -/
def opening : List Char := ['\x1b', '[']

lemma opening_starts : ∀ code ∈ on.marks, opening <+: code := by
  decide

variable {c : Char} {code rest text : List Char}

lemma eraseFrom_code (h : code ∈ on.marks) (rest : List Char) :
    eraseFrom on.marks 0 (code ++ rest) = eraseFrom on.marks 0 rest := by
  rw [marks_on] at h ⊢
  simp only [List.mem_cons, List.not_mem_nil, or_false] at h
  rcases h with rfl | rfl | rfl | rfl | rfl <;> rfl

lemma eraseFrom_cons (h : ¬ opening <+: c :: rest) :
    eraseFrom on.marks 0 (c :: rest) = c :: eraseFrom on.marks 0 rest := by
  have hnone : on.marks.find? (·.isPrefixOf (c :: rest)) = none := by
    rw [List.find?_eq_none]
    intro code hcode hstarts
    exact h ((opening_starts code hcode).trans (List.isPrefixOf_iff_prefix.1 hstarts))
  rw [eraseFrom, hnone]

/-- Text in which no code begins has no code in it. -/
lemma not_infix_of_mem_marks (hcode : code ∈ on.marks) (h : ¬ opening <:+: text) : ¬ code <:+: text :=
  fun hinfix => h ((opening_starts code hcode).isInfix.trans hinfix)

end Palette

open Palette

/-! ## How code and text are woven -/

/-- `colored` is `plain` with codes of the palette put in. -/
inductive Tinted : List Char → List Char → Prop where
  | nil : Tinted [] []
  | code {code colored plain : List Char} (hcode : code ∈ on.marks) (rest : Tinted colored plain) :
      Tinted (code ++ colored) plain
  | char {c : Char} {colored plain : List Char} (hc : c ≠ '\x1b') (rest : Tinted colored plain) :
      Tinted (c :: colored) (c :: plain)
  /-- an escape character of the text is left alone by the blank after it -/
  | escape {colored plain : List Char} (rest : Tinted colored plain) :
      Tinted ('\x1b' :: ' ' :: colored) ('\x1b' :: ' ' :: plain)

namespace Tinted

variable {colored colored' plain plain' : List Char}

/-- Text that brings no escape character along needs no code. -/
lemma refl {text : List Char} (h : '\x1b' ∉ text) : Tinted text text := by
  induction text with
  | nil => exact .nil
  | cons c text ih =>
    obtain ⟨hc, htext⟩ := not_or.1 (mt List.mem_cons.2 h)
    exact .char (Ne.symm hc) (ih htext)

lemma append (h : Tinted colored plain) (h' : Tinted colored' plain') :
    Tinted (colored ++ colored') (plain ++ plain') := by
  induction h with
  | nil => exact h'
  | code hcode _ ih =>
    rw [List.append_assoc]
    exact .code hcode ih
  | char hc _ ih => exact .char hc ih
  | escape _ ih => exact .escape ih

lemma eraseFrom_eq (h : Tinted colored plain) : eraseFrom on.marks 0 colored = plain := by
  induction h with
  | nil => rfl
  | code hcode _ ih => rw [eraseFrom_code hcode, ih]
  | char hc _ ih =>
    rw [eraseFrom_cons, ih]
    simp [opening, List.cons_prefix_cons, Ne.symm hc]
  | escape _ ih =>
    rw [eraseFrom_cons, eraseFrom_cons, ih]
    · simp [opening, List.cons_prefix_cons]
    · simp [opening, List.cons_prefix_cons]

/-- No code begins in the plain text. -/
lemma not_opening (h : Tinted colored plain) : ¬ opening <:+: plain := by
  induction h with
  | nil => simp [opening]
  | code _ _ ih => exact ih
  | char hc _ ih =>
    rw [List.infix_cons_iff, not_or]
    refine ⟨?_, ih⟩
    simp [opening, List.cons_prefix_cons, Ne.symm hc]
  | escape _ ih =>
    rw [List.infix_cons_iff, not_or, List.infix_cons_iff, not_or]
    refine ⟨?_, ?_, ih⟩
    · simp [opening, List.cons_prefix_cons]
    · simp [opening, List.cons_prefix_cons]

end Tinted

/-! ## Texts -/

/-- Deleting the codes of the palette from `colored` gives `plain`, which holds none of them. -/
structure Decorates (colored plain : String) : Prop where
  erased : on.erase colored = plain
  bare : ∀ code ∈ on.codes, ¬ code.toList <:+: plain.toList

/-- `colored` is `plain` with codes put in. -/
def Tints (colored plain : String) : Prop :=
  Tinted colored.toList plain.toList

namespace Tints

variable {colored colored' plain plain' text : String}

lemma decorates (h : Tints colored plain) : Decorates colored plain where
  erased := by rw [erase, h.eraseFrom_eq, String.ofList_toList]
  bare := by
    intro code hcode
    exact not_infix_of_mem_marks (mem_marks code hcode) h.not_opening

/-- Text without an escape character needs no code. -/
lemma same (h : '\x1b' ∉ text.toList) : Tints text text :=
  Tinted.refl h

/-- Text that is visible all through has no escape character. -/
lemma visible (h : AllVisible text.toList) : Tints text text :=
  .same (h.not_mem (by decide))

lemma append (h : Tints colored plain) (h' : Tints colored' plain') : Tints (colored ++ colored') (plain ++ plain') := by
  unfold Tints
  rw [String.toList_append, String.toList_append]
  exact Tinted.append h h'

/-- Text between a colour and the reset. -/
lemma paint {color : String} (hcolor : color ∈ on.codes) (h : Tints colored plain) :
    Tints (on.paint color colored) plain := by
  have hreset : Tinted on.reset.toList [] := by
    have hnil := Tinted.code (mem_marks on.reset (by decide)) .nil
    rwa [List.append_nil] at hnil
  have hended := Tinted.append h hreset
  rw [List.append_nil] at hended
  unfold Tints
  rw [Palette.paint, String.toList_append, String.toList_append, List.append_assoc]
  exact .code (mem_marks color hcolor) hended

/-- The same text under either palette, in a colour that the plain palette does not have. -/
lemma painted (color : Palette → String) (hcolor : color on ∈ on.codes) (hplain : color off = "")
    (h : Tints colored plain) : Tints (on.paint (color on) colored) (off.paint (color off) plain) := by
  rw [hplain, paint_off]
  exact h.paint hcolor

/-- Texts that are written of the same items. -/
lemma each {α : Type} {items : List α} {coloredOf plainOf : α → String}
    (h : ∀ x ∈ items, Tints (coloredOf x) (plainOf x)) :
    List.Forall₂ Tints (items.map coloredOf) (items.map plainOf) := by
  rw [List.forall₂_map_left_iff, List.forall₂_map_right_iff, List.forall₂_same]
  exact h

/-- Texts one after the other, with the same text between them. -/
lemma intercalate {separator : String} (hseparator : '\x1b' ∉ separator.toList) {coloreds plains : List String}
    (h : List.Forall₂ Tints coloreds plains) : Tints (separator.intercalate coloreds) (separator.intercalate plains) := by
  induction h with
  | nil => exact .nil
  | cons hfirst hrest ih =>
    cases hrest with
    | nil => simpa using hfirst
    | cons hsecond hrest =>
      rw [String.intercalate_cons_cons, String.intercalate_cons_cons]
      exact (hfirst.append (same hseparator)).append ih

/-- Texts one after the other. -/
lemma join {coloreds plains : List String} (h : List.Forall₂ Tints coloreds plains) :
    Tints (String.join coloreds) (String.join plains) := by
  induction h with
  | nil => exact same (by decide)
  | cons hfirst hrest ih =>
    rw [String.join_cons, String.join_cons]
    exact hfirst.append ih

/-- A line and its end. -/
lemma ended (h : Tints colored plain) : Tints (colored ++ "\n") (plain ++ "\n") :=
  h.append (.same (by decide))

end Tints

end RegexNfa
