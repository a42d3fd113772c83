import RegexNfa.Proofs.Arena.Rules

/-!
# No state is a dead end

Every state of a live fragment leads to the fragment's exit, after any history of rules
(`Grown.noDeadEnd`).  A rule gives each exit that it takes over a way to the new exit, so the states of the
used fragments keep a way out; the new states are the new entry and the new exit
(`Rewired.leads_exit_of_pair`), and concatenation has none.
-/

namespace RegexNfa

namespace Arena

variable {a b : Arena} {used live : List Fragment} {made f g left right inner : Fragment} {id : Nat}
  {added : Nat → Symbol → Nat → Prop}

/-- Every state of the fragment leads to its exit. -/
def NoDeadEnd (a : Arena) (f : Fragment) : Prop :=
  ∀ id, Leads a.states f.entry id → Leads a.states id f.exit

namespace Rewired

/-- The step lemma: a fragment that is not used keeps its ways out. -/
lemma noDeadEnd (r : Rewired used made a b added) (h : Intact (used ++ live) a)
    (hout : ∀ g ∈ used ++ live, NoDeadEnd a g) (hmade : NoDeadEnd b made) :
    ∀ g ∈ made :: live, NoDeadEnd b g := by
  refine List.forall_mem_cons.2 ⟨hmade, ?_⟩
  intro g hg id leads
  have hold := (r.leads_iff h hg).1 leads
  exact r.leads_mono (hout g (List.mem_append_right used hg) id hold)

/-- The new fragment has no dead end if the used ones had none and all exits lead on. -/
lemma noDeadEnd_of_made (r : Rewired used made a b added) (hout : ∀ g ∈ used, NoDeadEnd a g)
    (hused : ∀ g ∈ used, Leads b.states g.exit made.exit)
    (hnew : ∀ id, a.size ≤ id → id < b.size → Leads b.states id made.exit) : NoDeadEnd b made := by
  intro id leads
  rcases r.leads_made_iff.1 leads with ⟨hge, hlt⟩ | ⟨g, hg, leads⟩
  · exact hnew id hge hlt
  · exact (r.leads_mono (hout g hg id leads)).trans (hused g hg)

/-- The states that a rule adds are its entry and its exit. -/
lemma leads_exit_of_pair (r : Rewired used ⟨a.size, a.size + 1⟩ a b added) (hsize : b.size = a.size + 2) :
    ∀ id, a.size ≤ id → id < b.size → Leads b.states id (a.size + 1) := by
  intro id hge hlt
  by_cases hid : id = a.size
  · rw [hid]
    exact r.leads_exit
  · have hexit : id = a.size + 1 := by omega
    rw [hexit]
    exact .refl _ _

end Rewired

/-! ## The four rules -/

lemma noDeadEnd_char (h : Intact live a) (c : Char) : NoDeadEnd (a.char c).2 (a.char c).1 :=
  (rewired_char h c).noDeadEnd_of_made (by simp) (by simp)
    ((rewired_char h c).leads_exit_of_pair (size_char a c))

lemma noDeadEnd_concat (h : Intact ([left, right] ++ live) a) (hmade : a.concat left right = .ok (f, b))
    (hout : ∀ g ∈ [left, right], NoDeadEnd a g) : NoDeadEnd b f := by
  have r := rewired_concat h hmade
  have hsize := size_concat hmade
  obtain ⟨rfl, _⟩ := concat_eq_ok.1 hmade
  refine r.noDeadEnd_of_made hout ?_ ?_
  · -- the left exit goes over the new edge and then through the right fragment
    have hlink : Leads b.states left.exit right.entry :=
      .ofEdge ((edge_concat hmade).2 (.inr ⟨rfl, rfl, rfl⟩))
    have hcross : Leads b.states right.entry right.exit := r.leads_mono (h.crossed right (by simp))
    exact List.forall_mem_cons.2 ⟨hlink.trans hcross, List.forall_mem_singleton.2 (.refl _ _)⟩
  · intro id hge hlt
    omega

lemma noDeadEnd_union (h : Intact ([left, right] ++ live) a) (hmade : a.union left right = .ok (f, b))
    (hout : ∀ g ∈ [left, right], NoDeadEnd a g) : NoDeadEnd b f := by
  have r := rewired_union h hmade
  obtain ⟨rfl, _⟩ := union_eq_ok.1 hmade
  refine r.noDeadEnd_of_made hout ?_ (r.leads_exit_of_pair (size_union hmade))
  have hexits : ∀ p, p = left.exit ∨ p = right.exit → Leads b.states p (a.size + 1) := fun p hp =>
    .ofEdge ((edge_union hmade).2 (.inr (.inr ⟨hp, rfl, rfl⟩)))
  exact List.forall_mem_cons.2 ⟨hexits _ (.inl rfl), List.forall_mem_singleton.2 (hexits _ (.inr rfl))⟩

lemma noDeadEnd_star (h : Intact ([inner] ++ live) a) (hmade : a.star inner = .ok (f, b))
    (hout : ∀ g ∈ [inner], NoDeadEnd a g) : NoDeadEnd b f := by
  have r := rewired_star h hmade
  obtain ⟨rfl, _⟩ := star_eq_ok.1 hmade
  refine r.noDeadEnd_of_made hout ?_ (r.leads_exit_of_pair (size_star hmade))
  refine List.forall_mem_singleton.2 ?_
  exact .ofEdge ((edge_star hmade).2 (.inr ⟨.inr rfl, rfl, .inr rfl⟩))

/-! ## After any history -/

/-- The run lemma: a live fragment has no dead end. -/
theorem Grown.noDeadEnd {live : List LiveFragment} (h : Grown live a) :
    ∀ f ∈ fragments live, NoDeadEnd a f := by
  induction h with
  | fresh logging =>
    intro f hf
    exact absurd hf List.not_mem_nil
  | char h c ih =>
    have hmade := noDeadEnd_char h.intact c
    exact (rewired_char h.intact c).noDeadEnd h.intact ih hmade
  | concat h made ih =>
    have hmade := noDeadEnd_concat h.intact made fun g hg => ih g (List.mem_append_left _ hg)
    exact (rewired_concat h.intact made).noDeadEnd h.intact ih hmade
  | union h made ih =>
    have hmade := noDeadEnd_union h.intact made fun g hg => ih g (List.mem_append_left _ hg)
    exact (rewired_union h.intact made).noDeadEnd h.intact ih hmade
  | star h made ih =>
    have hmade := noDeadEnd_star h.intact made fun g hg => ih g (List.mem_append_left _ hg)
    exact (rewired_star h.intact made).noDeadEnd h.intact ih hmade
  | reorder _ hperm ih =>
    intro f hf
    exact ih f ((hperm.map _).mem_iff.2 hf)

end Arena

end RegexNfa
