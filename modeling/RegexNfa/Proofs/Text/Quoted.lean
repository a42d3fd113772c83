import Mathlib.Data.List.Basic
import RegexNfa.Graph
import RegexNfa.Text.Quoted

/-!
# Quoted text stays on its line

What stands between the marks may be any text; what is written for it has no hidden character.  So an input that is
quoted brings neither a line break nor a colour code along, and the lines of a report are those that its writer ended.
-/

namespace RegexNfa

/-- No character of the text is hidden. -/
def AllVisible (cs : List Char) : Prop :=
  ∀ c ∈ cs, isHidden c = false

namespace AllVisible

variable {c : Char} {cs ds : List Char}

lemma nil : AllVisible [] :=
  fun _ h => absurd h List.not_mem_nil

lemma cons (hc : isHidden c = false) (hcs : AllVisible cs) : AllVisible (c :: cs) :=
  List.forall_mem_cons.2 ⟨hc, hcs⟩

lemma append (hcs : AllVisible cs) (hds : AllVisible ds) : AllVisible (cs ++ ds) :=
  List.forall_mem_append.2 ⟨hcs, hds⟩

/-- A control character does not occur among visible ones. -/
lemma not_mem (h : AllVisible cs) (hc : c.toNat < 0x20) : c ∉ cs := by
  intro hmem
  have hhidden := isHidden_of_lt hc
  rw [h c hmem] at hhidden
  exact Bool.false_ne_true hhidden

end AllVisible

namespace Quoted

lemma isHidden_digitChar : ∀ d < 16, isHidden (Nat.digitChar d) = false := by
  decide

lemma allVisible_toDigits {base : Nat} (hbase : 1 < base) (hlast : base ≤ 16) (n : Nat) :
    AllVisible (Nat.toDigits base n) := by
  induction n using Nat.strongRecOn with
  | ind n ih =>
    rw [Nat.toDigits_eq_if hbase]
    split
    · next hlt => exact .cons (isHidden_digitChar n (Nat.lt_of_lt_of_le hlt hlast)) .nil
    · next hge =>
      have hless : n / base < n := Nat.div_lt_self (by omega) hbase
      have hdigit : n % base < base := Nat.mod_lt n (by omega)
      exact (ih _ hless).append (.cons (isHidden_digitChar _ (Nat.lt_of_lt_of_le hdigit hlast)) .nil)

/-- A number in decimal is visible all through. -/
lemma allVisible_toString (n : Nat) : AllVisible (toString n).toList := by
  have hdigits : (toString n).toList = Nat.toDigits 10 n := Nat.toList_repr
  rw [hdigits]
  exact allVisible_toDigits (by decide) (by decide) n

lemma allVisible_byNumber (c : Char) : AllVisible (byNumber c) := by
  have hopen : AllVisible "\\u\x7b".toList := .cons (by decide) (.cons (by decide) (.cons (by decide) .nil))
  have hclose : AllVisible ['\x7d'] := .cons (by decide) .nil
  exact (hopen.append (allVisible_toDigits (by decide) (by decide) c.toNat)).append hclose

/-- A character is written with visible ones only; the mark is the one that has to be visible itself. -/
lemma allVisible_escape {mark : Char} (hmark : isHidden mark = false) (c : Char) : AllVisible (escape mark c) := by
  have hback : isHidden '\\' = false := by decide
  unfold escape
  split_ifs with _ _ _ _ hitself hhidden
  · exact .cons hback (.cons (by decide) .nil)
  · exact .cons hback (.cons (by decide) .nil)
  · exact .cons hback (.cons (by decide) .nil)
  · exact .cons hback (.cons (by decide) .nil)
  · rcases hitself with rfl | rfl
    · exact .cons hback (.cons hback .nil)
    · exact .cons hback (.cons hmark .nil)
  · exact allVisible_byNumber c
  · exact .cons (Bool.not_eq_true _ ▸ hhidden) .nil

lemma allVisible_encode {mark : Char} (hmark : isHidden mark = false) (cs : List Char) :
    AllVisible (encode mark cs) := by
  refine .cons hmark (.append ?_ (.cons hmark .nil))
  intro d hd
  obtain ⟨c, _, hc⟩ := List.mem_flatMap.1 hd
  exact allVisible_escape hmark c d hc

/-- Whatever the text is, its quotation is visible all through. -/
theorem allVisible_text (s : String) : AllVisible (text s).toList := by
  rw [text, String.toList_ofList]
  exact allVisible_encode (by decide) s.toList

end Quoted

/-- The name of a state is visible all through. -/
lemma Graph.allVisible_stateName (id : Nat) : AllVisible (stateName id).toList := by
  show AllVisible ("S" ++ toString id).toList
  rw [String.toList_append]
  exact .cons (by decide) (Quoted.allVisible_toString id)

end RegexNfa
