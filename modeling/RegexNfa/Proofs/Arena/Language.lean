import RegexNfa.Proofs.Arena.Rules

/-!
# What live fragments spell

The texts spelled from a fragment's entry to its exit are those of the expression it was built for, after
any history of rules (`Grown.path_iff_matches`).

For the fragment that a rule makes there is one lemma for each rule, `path_char` to `path_star`, which cuts
a path of the new arena into paths of the old one.  A path can leave the states of a used fragment only
over a new edge at its exit (`Rewired.path_escape`); for repetition, where it may come back, the cut is an
induction on the path itself (`path_star_loop`).  For a fragment that is not used there is the frame
condition `Rewired.path_iff`.
-/

namespace RegexNfa

namespace Arena

variable {a b : Arena} {used live : List Fragment} {made f u left right inner : Fragment} {p q : Nat}
  {w : List Char} {c : Char} {added : Nat → Symbol → Nat → Prop}

/-- A new edge that starts inside a used fragment starts at its exit. -/
lemma Rewired.eq_exit (r : Rewired used made a b added) (h : Intact (used ++ live) a) (hu : u ∈ used)
    (hp : Leads a.states u.entry p) {symbol : Symbol} (hadded : added p symbol q) : p = u.exit := by
  have hmem : ∀ {g}, g ∈ used → g ∈ used ++ live := List.mem_append_left live
  rcases r.source p symbol q hadded with hnew | ⟨g, hg, rfl⟩
  · have hlt := h.inside u (hmem hu) p hp
    omega
  · rw [h.eq_of_leads (hmem hu) (hmem hg) hp (h.crossed g (hmem hg))]

/-- A path from inside a used fragment stays there, or leaves by a new edge at the exit. -/
lemma Rewired.path_escape (r : Rewired used made a b added) (h : Intact (used ++ live) a)
    (hepsilon : ∀ p symbol q, added p symbol q → symbol = .epsilon) (hu : u ∈ used)
    (hp : Leads a.states u.entry p) (path : Path b.states p w q) :
    Path a.states p w q ∨
      ∃ v₁ v₂ t, w = v₁ ++ v₂ ∧ Path a.states p v₁ u.exit ∧ added u.exit .epsilon t ∧
        Path b.states t v₂ q := by
  induction path with
  | here p => exact .inl (.here p)
  | @epsilon p p' q w edge rest ih =>
    rcases (r.edge_iff _ _ _).1 edge with edge | hadded
    · rcases ih (hp.trans (.ofEdge edge)) with hstays | ⟨v₁, v₂, t, rfl, hexit, hout, hrest⟩
      · exact .inl (.epsilon edge hstays)
      · exact .inr ⟨v₁, v₂, t, rfl, .epsilon edge hexit, hout, hrest⟩
    · have hexit := r.eq_exit h hu hp hadded
      subst hexit
      exact .inr ⟨[], w, p', rfl, .here _, hadded, rest⟩
  | @char p p' q c w edge rest ih =>
    rcases (r.edge_iff _ _ _).1 edge with edge | hadded
    · rcases ih (hp.trans (.ofEdge edge)) with hstays | ⟨v₁, v₂, t, rfl, hexit, hout, hrest⟩
      · exact .inl (.char edge hstays)
      · exact .inr ⟨c :: v₁, v₂, t, rfl, .char edge hexit, hout, hrest⟩
    · exact absurd (hepsilon _ _ _ hadded) (by simp)

/-! ## The fragment that a rule makes -/

theorem path_char (h : Intact live a) :
    Path (a.char c).2.states (a.char c).1.entry w (a.char c).1.exit ↔ w = [c] := by
  have r := rewired_char h c
  constructor
  · intro path
    rcases path.first with ⟨_, hsame⟩ | ⟨q, edge, _⟩ | ⟨d, v, q, rfl, edge, rest⟩
    · exact absurd (show a.size = a.size + 1 from hsame) (by omega)
    · rcases (edge_char c).1 edge with edge | hadded
      · exact absurd edge.lt_length (Nat.lt_irrefl _)
      · exact absurd hadded.2.1 (by simp)
    · rcases (edge_char c).1 edge with edge | ⟨_, hsymbol, rfl⟩
      · exact absurd edge.lt_length (Nat.lt_irrefl _)
      · obtain ⟨rfl, _⟩ := rest.of_sink r.exit_free
        rw [Symbol.char.inj hsymbol]
  · intro hw
    rw [hw]
    exact .ofChar ((edge_char c).2 (.inr ⟨rfl, rfl, rfl⟩))

theorem path_concat (h : Intact ([left, right] ++ live) a) (hmade : a.concat left right = .ok (f, b)) :
    Path b.states f.entry w f.exit ↔
      ∃ u v, w = u ++ v ∧ Path a.states left.entry u left.exit ∧
        Path a.states right.entry v right.exit := by
  have r := rewired_concat h hmade
  obtain ⟨rfl, _⟩ := concat_eq_ok.1 hmade
  have hright : right ∈ [left, right] ++ live := by simp
  have hepsilon : ∀ p symbol q, p = left.exit ∧ symbol = .epsilon ∧ q = right.entry →
      symbol = Symbol.epsilon := fun p symbol q hadded => hadded.2.1
  have hapart : ∀ id, Leads a.states left.entry id → ¬ Leads a.states right.entry id :=
    (List.pairwise_cons.1 h.apart).1 right (by simp)
  constructor
  · intro path
    rcases r.path_escape h hepsilon (u := left) (by simp) (.refl _ _) path with
      hstays | ⟨u, v, t, rfl, hu, ⟨_, _, rfl⟩, hrest⟩
    · exact absurd (h.crossed right hright) (hapart _ ⟨w, hstays⟩)
    · rcases r.path_escape h hepsilon (u := right) (by simp) (.refl _ _) hrest with
        hv | ⟨_, _, _, _, _, ⟨hexit, _⟩, _⟩
      · exact ⟨u, v, rfl, hu, hv⟩
      · exact absurd (hexit ▸ h.crossed right hright) (hapart _ ⟨u, hu⟩)
  · intro hw
    obtain ⟨u, v, rfl, hu, hv⟩ := hw
    have hlink : Edge b.states left.exit .epsilon right.entry :=
      (edge_concat hmade).2 (.inr ⟨rfl, rfl, rfl⟩)
    exact (r.path_mono hu).append (.epsilon hlink (r.path_mono hv))

theorem path_union (h : Intact ([left, right] ++ live) a) (hmade : a.union left right = .ok (f, b)) :
    Path b.states f.entry w f.exit ↔
      Path a.states left.entry w left.exit ∨ Path a.states right.entry w right.exit := by
  have r := rewired_union h hmade
  obtain ⟨rfl, _⟩ := union_eq_ok.1 hmade
  have hepsilon : ∀ p symbol q,
      p = a.size ∧ symbol = .epsilon ∧ (q = left.entry ∨ q = right.entry) ∨
        (p = left.exit ∨ p = right.exit) ∧ symbol = .epsilon ∧ q = a.size + 1 →
      symbol = Symbol.epsilon := fun p symbol q hadded => hadded.elim (·.2.1) (·.2.1)
  -- a path from an operand's entry to the new exit is one to the operand's exit, then a new edge
  have hbranch : ∀ g ∈ [left, right], Path b.states g.entry w (a.size + 1) →
      Path a.states g.entry w g.exit := by
    intro g hg path
    have hg' : g ∈ [left, right] ++ live := List.mem_append_left live hg
    rcases r.path_escape h hepsilon hg (.refl _ _) path with
      hstays | ⟨u, v, t, rfl, hu, hout, hrest⟩
    · have hlt := h.inside g hg' _ ⟨w, hstays⟩
      omega
    · rcases hout with ⟨hentry, _⟩ | ⟨_, _, rfl⟩
      · have hlt := h.exit_lt hg'
        omega
      · obtain ⟨rfl, _⟩ := hrest.of_sink r.exit_free
        rwa [List.append_nil]
  constructor
  · intro path
    rcases path.first with ⟨_, hsame⟩ | ⟨q, edge, rest⟩ | ⟨d, v, q, _, edge, _⟩
    · exact absurd (show a.size = a.size + 1 from hsame) (by omega)
    · rcases (edge_union hmade).1 edge with edge | ⟨_, _, rfl | rfl⟩ | ⟨hold, _⟩
      · exact absurd edge.lt_length (Nat.lt_irrefl _)
      · exact .inl (hbranch left (by simp) rest)
      · exact .inr (hbranch right (by simp) rest)
      · have hleft := h.exit_lt (f := left) (by simp)
        have hright := h.exit_lt (f := right) (by simp)
        have hold : a.size = left.exit ∨ a.size = right.exit := hold
        omega
    · rcases (edge_union hmade).1 edge with edge | hadded
      · exact absurd edge.lt_length (Nat.lt_irrefl _)
      · exact absurd (hepsilon _ _ _ hadded) (by simp)
  · intro hw
    have hjoin : ∀ g, g = left ∨ g = right → Path a.states g.entry w g.exit →
        Path b.states a.size w (a.size + 1) := by
      intro g hg path
      have hin : Edge b.states a.size .epsilon g.entry :=
        (edge_union hmade).2 (.inr (.inl ⟨rfl, rfl, hg.imp (congrArg _) (congrArg _)⟩))
      have hout : Edge b.states g.exit .epsilon (a.size + 1) :=
        (edge_union hmade).2 (.inr (.inr ⟨hg.imp (congrArg _) (congrArg _), rfl, rfl⟩))
      have hcross := (r.path_mono path).append (.ofEpsilon hout)
      rw [List.append_nil] at hcross
      exact .epsilon hin hcross
    rcases hw with hw | hw
    · exact hjoin left (.inl rfl) hw
    · exact hjoin right (.inr rfl) hw

/-- A path that starts inside a repeated fragment and ends at the new exit runs to the fragment's exit, and
then goes round the fragment some number of times. -/
lemma path_star_loop (h : Intact ([inner] ++ live) a) (hmade : a.star inner = .ok (f, b))
    (hp : Leads a.states inner.entry p) (path : Path b.states p w (a.size + 1)) :
    ∃ u pieces, w = u ++ List.flatten pieces ∧ Path a.states p u inner.exit ∧
      ∀ piece ∈ pieces, Path a.states inner.entry piece inner.exit := by
  have r := rewired_star h hmade
  have hinner : inner ∈ [inner] ++ live := by simp
  have hsink : ∀ symbol q, ¬ Edge b.states (a.size + 1) symbol q := by
    obtain ⟨rfl, _⟩ := star_eq_ok.1 hmade
    exact r.exit_free
  generalize hq : a.size + 1 = q at path
  induction path with
  | here p =>
    have hlt := h.inside inner hinner p hp
    omega
  | @epsilon p p' q w edge rest ih =>
    rcases (r.edge_iff _ _ _).1 edge with edge | hadded
    · obtain ⟨u, pieces, hw, hu, hpieces⟩ := ih (hp.trans (.ofEdge edge)) hq
      exact ⟨u, pieces, hw, .epsilon edge hu, hpieces⟩
    · have hexit := r.eq_exit h (u := inner) (by simp) hp hadded
      subst hexit
      rcases hadded.2.2 with rfl | rfl
      · obtain ⟨u, pieces, hw, hu, hpieces⟩ := ih (.refl _ _) hq
        exact ⟨[], u :: pieces, hw, .here _, List.forall_mem_cons.2 ⟨hu, hpieces⟩⟩
      · obtain ⟨rfl, _⟩ := rest.of_sink hsink
        exact ⟨[], [], rfl, .here _, by simp⟩
  | @char p p' q c w edge rest ih =>
    rcases (r.edge_iff _ _ _).1 edge with edge | hadded
    · obtain ⟨u, pieces, hw, hu, hpieces⟩ := ih (hp.trans (.ofEdge edge)) hq
      exact ⟨c :: u, pieces, by rw [hw, List.cons_append], .char edge hu, hpieces⟩
    · exact absurd hadded.2.1 (by simp)

theorem path_star (h : Intact ([inner] ++ live) a) (hmade : a.star inner = .ok (f, b)) :
    Path b.states f.entry w f.exit ↔
      ∃ pieces : List (List Char), w = pieces.flatten ∧
        ∀ piece ∈ pieces, Path a.states inner.entry piece inner.exit := by
  have r := rewired_star h hmade
  have hloop := fun {w p} => path_star_loop (w := w) (p := p) h hmade
  obtain ⟨rfl, _⟩ := star_eq_ok.1 hmade
  constructor
  · intro path
    rcases path.first with ⟨_, hsame⟩ | ⟨q, edge, rest⟩ | ⟨d, v, q, _, edge, _⟩
    · exact absurd (show a.size = a.size + 1 from hsame) (by omega)
    · rcases (edge_star hmade).1 edge with edge | ⟨_, _, rfl | rfl⟩
      · exact absurd edge.lt_length (Nat.lt_irrefl _)
      · obtain ⟨u, pieces, hw, hu, hpieces⟩ := hloop (.refl _ _) rest
        exact ⟨u :: pieces, hw, List.forall_mem_cons.2 ⟨hu, hpieces⟩⟩
      · obtain ⟨rfl, _⟩ := rest.of_sink r.exit_free
        exact ⟨[], rfl, by simp⟩
    · rcases (edge_star hmade).1 edge with edge | hadded
      · exact absurd edge.lt_length (Nat.lt_irrefl _)
      · exact absurd hadded.2.1 (by simp)
  · intro hw
    obtain ⟨pieces, rfl, hpieces⟩ := hw
    have hnew : ∀ p q, p = a.size ∨ p = inner.exit → q = inner.entry ∨ q = a.size + 1 →
        Edge b.states p .epsilon q := fun p q hp hq => (edge_star hmade).2 (.inr ⟨hp, rfl, hq⟩)
    -- from the new entry and from the inner exit alike
    have hround : ∀ p, p = a.size ∨ p = inner.exit → Path b.states p pieces.flatten (a.size + 1) := by
      induction pieces with
      | nil =>
        intro p hp
        exact .ofEpsilon (hnew p _ hp (.inr rfl))
      | cons piece pieces ih =>
        intro p hp
        obtain ⟨hpiece, hpieces⟩ := List.forall_mem_cons.1 hpieces
        refine .epsilon (hnew p _ hp (.inl rfl)) ?_
        exact (r.path_mono hpiece).append (ih hpieces _ (.inr rfl))
    exact hround _ (.inl rfl)

/-! ## After any history -/

/-- Every live fragment spells the texts of the expression that it was built for. -/
theorem Grown.path_iff_matches {live : List LiveFragment} (h : Grown live a) :
    ∀ f ∈ live, ∀ w,
      Path a.states f.fragment.entry w f.fragment.exit ↔ f.expression.Matches w := by
  induction h with
  | fresh logging =>
    intro f hf
    exact absurd hf List.not_mem_nil
  | char h c ih =>
    intro f hf w
    rcases List.mem_cons.1 hf with rfl | hf
    · rw [path_char h.intact, Expression.matches_literal]
    · rw [(rewired_char h.intact c).path_iff h.intact (List.mem_map_of_mem hf)]
      exact ih f hf w
  | @concat live a b l r f h hmade ih =>
    intro g hg w
    rcases List.mem_cons.1 hg with rfl | hg
    · rw [path_concat h.intact hmade, Expression.matches_concat]
      simp only [ih l (by simp), ih r (by simp)]
    · rw [(rewired_concat h.intact hmade).path_iff h.intact (List.mem_map_of_mem hg)]
      exact ih g (by simp [hg]) w
  | @union live a b l r f h hmade ih =>
    intro g hg w
    rcases List.mem_cons.1 hg with rfl | hg
    · rw [path_union h.intact hmade, Expression.matches_union]
      simp only [ih l (by simp), ih r (by simp)]
    · rw [(rewired_union h.intact hmade).path_iff h.intact (List.mem_map_of_mem hg)]
      exact ih g (by simp [hg]) w
  | @star live a b e f h hmade ih =>
    intro g hg w
    rcases List.mem_cons.1 hg with rfl | hg
    · rw [path_star h.intact hmade, Expression.matches_star]
      simp only [ih e (by simp)]
    · rw [(rewired_star h.intact hmade).path_iff h.intact (List.mem_map_of_mem hg)]
      exact ih g (by simp [hg]) w
  | reorder _ hperm ih =>
    intro f hf
    exact ih f (hperm.mem_iff.2 hf)

end Arena

end RegexNfa
