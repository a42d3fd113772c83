import RegexNfa.Path
import Mathlib.Tactic.Lemma

/-!
# Where edges lead

`Leads` forgets what a path spells.  Two facts about paths carry every argument on a growing arena: more
edges make more paths (`Path.mono`), and a path that starts in a part of the graph which nothing leaves is
a path of that part (`Path.confined`).
-/

namespace RegexNfa

/-- Edges lead from `p` to `q`, whatever they spell. -/
def Leads (states : List State) (p q : Nat) : Prop :=
  ∃ w, Path states p w q

variable {states states' : List State} {p q r : Nat} {w : List Char} {symbol : Symbol}

lemma Leads.refl (states : List State) (p : Nat) : Leads states p p :=
  ⟨[], .here p⟩

lemma Leads.trans (first : Leads states p q) (second : Leads states q r) : Leads states p r := by
  obtain ⟨u, hu⟩ := first
  obtain ⟨v, hv⟩ := second
  exact ⟨u ++ v, hu.append hv⟩

lemma Leads.ofEdge (edge : Edge states p symbol q) : Leads states p q := by
  cases symbol with
  | epsilon => exact ⟨[], .ofEpsilon edge⟩
  | char c => exact ⟨[c], .ofChar edge⟩

/-- A path is empty or has a first edge. -/
lemma Path.first (path : Path states p w q) :
    (w = [] ∧ p = q) ∨ (∃ r, Edge states p .epsilon r ∧ Path states r w q) ∨
      ∃ c v r, w = c :: v ∧ Edge states p (.char c) r ∧ Path states r v q := by
  cases path with
  | here => exact .inl ⟨rfl, rfl⟩
  | epsilon edge rest => exact .inr (.inl ⟨_, edge, rest⟩)
  | char edge rest => exact .inr (.inr ⟨_, _, _, rfl, edge, rest⟩)

/-- A path from a state without outgoing edges is empty. -/
lemma Path.of_sink (hsink : ∀ symbol q, ¬ Edge states p symbol q) (path : Path states p w q) :
    w = [] ∧ q = p := by
  rcases path.first with ⟨hw, hq⟩ | ⟨r, edge, _⟩ | ⟨c, v, r, _, edge, _⟩
  · exact ⟨hw, hq.symm⟩
  · exact absurd edge (hsink _ _)
  · exact absurd edge (hsink _ _)

/-- With more edges there are more paths. -/
lemma Path.mono (hedge : ∀ p symbol q, Edge states p symbol q → Edge states' p symbol q)
    (path : Path states p w q) : Path states' p w q := by
  induction path with
  | here p => exact .here p
  | epsilon edge _ ih => exact .epsilon (hedge _ _ _ edge) ih
  | char edge _ ih => exact .char (hedge _ _ _ edge) ih

lemma Leads.mono (hedge : ∀ p symbol q, Edge states p symbol q → Edge states' p symbol q)
    (leads : Leads states p q) : Leads states' p q := by
  obtain ⟨w, path⟩ := leads
  exact ⟨w, path.mono hedge⟩

/-- A path that starts in a part of the graph which the edges of `states'` cannot leave, and where these
are edges of `states`, is a path of `states` within the part. -/
lemma Path.confined {part : Nat → Prop}
    (hedge : ∀ p symbol q, part p → Edge states' p symbol q → Edge states p symbol q ∧ part q)
    (path : Path states' p w q) (hp : part p) : Path states p w q ∧ part q := by
  induction path with
  | here p => exact ⟨.here p, hp⟩
  | epsilon edge _ ih =>
    obtain ⟨edge', hpart⟩ := hedge _ _ _ hp edge
    obtain ⟨rest, hq⟩ := ih hpart
    exact ⟨.epsilon edge' rest, hq⟩
  | char edge _ ih =>
    obtain ⟨edge', hpart⟩ := hedge _ _ _ hp edge
    obtain ⟨rest, hq⟩ := ih hpart
    exact ⟨.char edge' rest, hq⟩

lemma Leads.confined (part : Nat → Prop)
    (hedge : ∀ p symbol q, part p → Edge states p symbol q → part q)
    (leads : Leads states p q) (hp : part p) : part q := by
  obtain ⟨w, path⟩ := leads
  exact (path.confined (fun p symbol q hp edge => ⟨edge, hedge p symbol q hp edge⟩) hp).2

end RegexNfa
