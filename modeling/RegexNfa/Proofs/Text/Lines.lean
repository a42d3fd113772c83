import Mathlib.Data.List.Forall2
import RegexNfa.Proofs.Text.Quoted

/-!
# Texts made of lines

A report that has one line for each item ends every line that it writes, so it has as many line breaks as items, and one
more wherever a break gets into what is written (`breaks_asLines`).  Counting them tells whether the text can be read back
by line at all: no other way of cutting it helps, since each way has to give up the same number of breaks
(`onePerLine_asLines_iff`).
-/

namespace RegexNfa

variable {heads texts : List String} {text separator : String}

/-- The number of line breaks in a text. -/
def breaks (text : String) : Nat :=
  text.toList.count '\n'

/-- The texts, each ended as a line. -/
def asLines (texts : List String) : String :=
  String.join (texts.map (· ++ "\n"))

/-- The text has one ended line for each of `heads`, which the line begins with. -/
def OnePerLine (heads : List String) (text : String) : Prop :=
  ∃ lines, text = asLines lines ∧ (∀ line ∈ lines, '\n' ∉ line.toList) ∧
    List.Forall₂ (fun head line => head.toList <+: line.toList) heads lines

/-! ## Counting line breaks -/

@[simp] lemma breaks_append (text text' : String) : breaks (text ++ text') = breaks text + breaks text' := by
  rw [breaks, String.toList_append, List.count_append, breaks, breaks]

lemma breaks_eq_zero_iff : breaks text = 0 ↔ '\n' ∉ text.toList :=
  List.count_eq_zero

lemma breaks_of_visible (h : AllVisible text.toList) : breaks text = 0 :=
  breaks_eq_zero_iff.2 (h.not_mem (by decide))

@[simp] lemma breaks_toString (n : Nat) : breaks (toString n) = 0 :=
  breaks_of_visible (Quoted.allVisible_toString n)

@[simp] lemma breaks_stateName (id : Nat) : breaks (Graph.stateName id) = 0 :=
  breaks_of_visible (Graph.allVisible_stateName id)

/-- What stands between the texts is broken nowhere. -/
lemma breaks_intercalate (h : breaks separator = 0) (texts : List String) :
    breaks (separator.intercalate texts) = breaks (String.join texts) := by
  induction texts with
  | nil => rfl
  | cons first rest ih =>
    cases rest with
    | nil => simp
    | cons second rest =>
      rw [String.intercalate_cons_cons, breaks_append, breaks_append, ih, h, Nat.add_zero, ← breaks_append,
        ← String.join_cons]

/-- Each line has its end, and what breaks it. -/
lemma breaks_asLines (texts : List String) : breaks (asLines texts) = texts.length + breaks (String.join texts) := by
  induction texts with
  | nil => rfl
  | cons text texts ih =>
    have hend : breaks "\n" = 1 := by decide
    rw [asLines, List.map_cons, String.join_cons, breaks_append, breaks_append, hend, ← asLines, ih, String.join_cons,
      breaks_append, List.length_cons]
    omega

/-- If what is written of an item is broken by some of its characters, all that is written is broken by all of them. -/
lemma breaks_join_map {α : Type} {items : List α} {write : α → String} {characters : α → List Char}
    (h : ∀ x ∈ items, breaks (write x) = (characters x).count '\n') :
    breaks (String.join (items.map write)) = (items.flatMap characters).count '\n' := by
  induction items with
  | nil => rfl
  | cons x items ih =>
    obtain ⟨hx, hitems⟩ := List.forall_mem_cons.1 h
    rw [List.map_cons, String.join_cons, breaks_append, hx, ih hitems, List.flatMap_cons, List.count_append]

/-- No text is broken. -/
lemma breaks_join_eq_zero_iff : breaks (String.join texts) = 0 ↔ ∀ text ∈ texts, '\n' ∉ text.toList := by
  have hjoin : breaks (String.join (texts.map id)) = (texts.flatMap String.toList).count '\n' :=
    breaks_join_map fun _ _ => rfl
  rw [List.map_id] at hjoin
  rw [hjoin, List.count_eq_zero, List.mem_flatMap]
  exact not_exists.trans (forall_congr' fun _ => not_and)

/-! ## One item a line -/

/-- If each text begins with what its line is to begin with, then all that matters is the number of line breaks. -/
theorem onePerLine_asLines_iff
    (hstarts : List.Forall₂ (fun head text => head.toList <+: text.toList) heads texts) :
    OnePerLine heads (asLines texts) ↔ breaks (asLines texts) = heads.length := by
  constructor
  · intro h
    obtain ⟨lines, heq, hwhole, hheads⟩ := h
    rw [heq, breaks_asLines, breaks_join_eq_zero_iff.2 hwhole, hheads.length_eq, Nat.add_zero]
  · intro h
    rw [breaks_asLines, hstarts.length_eq, Nat.add_eq_left] at h
    exact ⟨texts, rfl, breaks_join_eq_zero_iff.1 h, hstarts⟩

end RegexNfa
