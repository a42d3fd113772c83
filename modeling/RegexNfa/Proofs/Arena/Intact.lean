import RegexNfa.Proofs.Arena.Edges
import RegexNfa.Proofs.Path.Leading

/-!
# Live fragments share an arena without touching

The live fragments divide an arena among themselves.  A fragment's states are those that its entry leads
to; `Intact` says that every state has one owner, that nothing leads into an entry or out of an exit, and
that exactly the exits accept.

All four rules are one kind of step: some fragments are used up, new edges start at their exits or at new
states and end at their entries or at new states, and one fragment is made.  `Rewired` is that step and
`Rewired.intact` shows that it keeps `Intact`, so the argument about ownership is made once.
`Rewired.path_iff` is its frame condition: a fragment that is not used keeps its paths.
-/

namespace RegexNfa

namespace Arena

variable {a b : Arena} {used live : List Fragment} {made f g : Fragment} {p q id : Nat} {w : List Char}
  {symbol : Symbol} {added : Nat → Symbol → Nat → Prop}

/-- The live fragments divide the arena among themselves.  The states of a fragment are those that its
entry leads to. -/
structure Intact (live : List Fragment) (a : Arena) : Prop where
  /-- exactly the exits accept -/
  accepting_iff : ∀ id, Accepting a.states id ↔ ∃ f ∈ live, f.exit = id
  covered : ∀ id < a.size, ∃ f ∈ live, Leads a.states f.entry id
  inside : ∀ f ∈ live, ∀ id, Leads a.states f.entry id → id < a.size
  apart : live.Pairwise fun f g => ∀ id, Leads a.states f.entry id → ¬ Leads a.states g.entry id
  entry_free : ∀ f ∈ live, ∀ p symbol, ¬ Edge a.states p symbol f.entry
  exit_free : ∀ f ∈ live, ∀ symbol q, ¬ Edge a.states f.exit symbol q
  crossed : ∀ f ∈ live, Leads a.states f.entry f.exit

namespace Intact

lemma entry_lt (h : Intact live a) (hf : f ∈ live) : f.entry < a.size :=
  h.inside f hf f.entry (.refl _ _)

lemma exit_lt (h : Intact live a) (hf : f ∈ live) : f.exit < a.size :=
  h.inside f hf f.exit (h.crossed f hf)

lemma edge_lt (h : Intact live a) (edge : Edge a.states p symbol q) : q < a.size := by
  obtain ⟨f, hf, leads⟩ := h.covered p edge.lt_length
  exact h.inside f hf q (leads.trans (.ofEdge edge))

lemma perm {live' : List Fragment} (h : Intact live a) (hperm : live.Perm live') :
    Intact live' a := by
  have hmem : ∀ f, f ∈ live' ↔ f ∈ live := fun f => hperm.symm.mem_iff
  exact {
    accepting_iff := by
      intro id
      simp only [h.accepting_iff, hmem]
    covered := by
      intro id hid
      obtain ⟨f, hf, leads⟩ := h.covered id hid
      exact ⟨f, (hmem f).2 hf, leads⟩
    inside := by
      intro f hf
      exact h.inside f ((hmem f).1 hf)
    apart := by
      refine (hperm.pairwise_iff ?_).1 h.apart
      intro f g hfg id hg hf
      exact hfg id hf hg
    entry_free := by
      intro f hf
      exact h.entry_free f ((hmem f).1 hf)
    exit_free := by
      intro f hf
      exact h.exit_free f ((hmem f).1 hf)
    crossed := by
      intro f hf
      exact h.crossed f ((hmem f).1 hf)
  }

/-- Two places of the live list own no state in common. -/
lemma index_eq (h : Intact live a) {i j : Nat} (hi : live[i]? = some f) (hj : live[j]? = some g)
    (hf : Leads a.states f.entry id) (hg : Leads a.states g.entry id) : i = j := by
  obtain ⟨hi', rfl⟩ := List.getElem?_eq_some_iff.1 hi
  obtain ⟨hj', rfl⟩ := List.getElem?_eq_some_iff.1 hj
  have hapart := List.pairwise_iff_getElem.1 h.apart
  rcases Nat.lt_trichotomy i j with hlt | heq | hgt
  · exact absurd hg (hapart i j hi' hj' hlt id hf)
  · exact heq
  · exact absurd hf (hapart j i hj' hi' hgt id hg)

lemma eq_of_leads (h : Intact live a) (hf : f ∈ live) (hg : g ∈ live)
    (hf' : Leads a.states f.entry id) (hg' : Leads a.states g.entry id) : f = g := by
  obtain ⟨i, hi⟩ := List.mem_iff_getElem?.1 hf
  obtain ⟨j, hj⟩ := List.mem_iff_getElem?.1 hg
  rw [h.index_eq hi hj hf' hg', hj] at hi
  exact (Option.some.inj hi).symm

/-- A used fragment and one that stays live have no state in common. -/
lemma apart_of_mem (h : Intact (used ++ live) a) (hf : f ∈ used) (hg : g ∈ live)
    (leads : Leads a.states f.entry id) : ¬ Leads a.states g.entry id :=
  (List.pairwise_append.1 h.apart).2.2 f hf g hg id leads

end Intact

/-! ## One step -/

/-- What a rule does to an arena: `used` are taken over, `made` is the fragment in their place, and
`added` are the new edges. -/
structure Rewired (used : List Fragment) (made : Fragment) (a b : Arena)
    (added : Nat → Symbol → Nat → Prop) : Prop where
  size_le : a.size ≤ b.size
  edge_iff : ∀ p symbol q, Edge b.states p symbol q ↔ Edge a.states p symbol q ∨ added p symbol q
  source : ∀ p symbol q, added p symbol q → a.size ≤ p ∨ ∃ g ∈ used, p = g.exit
  target : ∀ p symbol q, added p symbol q → (a.size ≤ q ∧ q < b.size) ∨ ∃ g ∈ used, q = g.entry
  accepting_iff : ∀ id, Accepting b.states id ↔
    id = made.exit ∨ Accepting a.states id ∧ ∀ g ∈ used, id ≠ g.exit
  entry_free : ∀ p symbol, ¬ Edge b.states p symbol made.entry
  exit_free : ∀ symbol q, ¬ Edge b.states made.exit symbol q
  entry_own : (a.size ≤ made.entry ∧ made.entry < b.size) ∨ ∃ g ∈ used, made.entry = g.entry
  leads_new : ∀ id, a.size ≤ id → id < b.size → Leads b.states made.entry id
  leads_used : ∀ g ∈ used, Leads b.states made.entry g.entry
  leads_exit : Leads b.states made.entry made.exit

namespace Rewired

lemma mono (r : Rewired used made a b added) (edge : Edge a.states p symbol q) :
    Edge b.states p symbol q :=
  (r.edge_iff p symbol q).2 (.inl edge)

lemma path_mono (r : Rewired used made a b added) (path : Path a.states p w q) : Path b.states p w q :=
  path.mono fun _ _ _ => r.mono

lemma leads_mono (r : Rewired used made a b added) (leads : Leads a.states p q) : Leads b.states p q :=
  leads.mono fun _ _ _ => r.mono

/-- A fragment that is not used gains no edge. -/
lemma edge_of_live (r : Rewired used made a b added) (h : Intact (used ++ live) a) (hg : g ∈ live)
    (hp : Leads a.states g.entry p) (edge : Edge b.states p symbol q) : Edge a.states p symbol q := by
  rcases (r.edge_iff p symbol q).1 edge with edge | hadded
  · exact edge
  · exfalso
    rcases r.source p symbol q hadded with hnew | ⟨u, hu, rfl⟩
    · have hlt := h.inside g (List.mem_append_right used hg) p hp
      omega
    · exact h.apart_of_mem hu hg (h.crossed u (List.mem_append_left live hu)) hp

/-- The frame condition: a fragment that is not used keeps its paths. -/
theorem path_iff (r : Rewired used made a b added) (h : Intact (used ++ live) a) (hg : g ∈ live) :
    Path b.states g.entry w q ↔ Path a.states g.entry w q := by
  constructor
  · intro path
    have hstay : ∀ p symbol q, Leads a.states g.entry p → Edge b.states p symbol q →
        Edge a.states p symbol q ∧ Leads a.states g.entry q := by
      intro p symbol q hp edge
      have hold := r.edge_of_live h hg hp edge
      exact ⟨hold, hp.trans (.ofEdge hold)⟩
    exact (path.confined hstay (.refl _ _)).1
  · intro path
    exact r.path_mono path

lemma leads_iff (r : Rewired used made a b added) (h : Intact (used ++ live) a) (hg : g ∈ live) :
    Leads b.states g.entry q ↔ Leads a.states g.entry q :=
  exists_congr fun _ => r.path_iff h hg

/-- The states of the new fragment are those of the used ones and the new states. -/
lemma leads_made_iff (r : Rewired used made a b added) :
    Leads b.states made.entry id ↔
      (a.size ≤ id ∧ id < b.size) ∨ ∃ g ∈ used, Leads a.states g.entry id := by
  constructor
  · intro leads
    refine leads.confined
      (fun id => (a.size ≤ id ∧ id < b.size) ∨ ∃ g ∈ used, Leads a.states g.entry id) ?_ ?_
    · intro p symbol q hp edge
      rcases (r.edge_iff p symbol q).1 edge with edge | hadded
      · rcases hp with ⟨hnew, _⟩ | ⟨u, hu, hp⟩
        · have hlt : p < a.size := edge.lt_length
          omega
        · exact .inr ⟨u, hu, hp.trans (.ofEdge edge)⟩
      · rcases r.target p symbol q hadded with hnew | ⟨u, hu, rfl⟩
        · exact .inl hnew
        · exact .inr ⟨u, hu, .refl _ _⟩
    · rcases r.entry_own with hnew | ⟨u, hu, hentry⟩
      · exact .inl hnew
      · exact .inr ⟨u, hu, by rw [hentry]; exact .refl _ _⟩
  · intro hid
    rcases hid with ⟨hge, hlt⟩ | ⟨u, hu, leads⟩
    · exact r.leads_new id hge hlt
    · exact (r.leads_used u hu).trans (r.leads_mono leads)

/-! ### What a step keeps, one by one -/

lemma accepting_iff_exit (r : Rewired used made a b added) (h : Intact (used ++ live) a) :
    Accepting b.states id ↔ ∃ f ∈ made :: live, f.exit = id := by
  rw [r.accepting_iff, h.accepting_iff]
  constructor
  · intro hid
    rcases hid with rfl | ⟨⟨f, hf, rfl⟩, hne⟩
    · exact ⟨made, List.mem_cons_self, rfl⟩
    · rcases List.mem_append.1 hf with hf | hf
      · exact absurd rfl (hne f hf)
      · exact ⟨f, List.mem_cons_of_mem made hf, rfl⟩
  · intro hid
    obtain ⟨f, hf, rfl⟩ := hid
    rcases List.mem_cons.1 hf with rfl | hf
    · exact .inl rfl
    · have hlive : f ∈ used ++ live := List.mem_append_right used hf
      refine .inr ⟨⟨f, hlive, rfl⟩, ?_⟩
      intro u hu hexit
      have hu' : Leads a.states u.entry f.exit := by
        rw [hexit]
        exact h.crossed u (List.mem_append_left live hu)
      exact h.apart_of_mem hu hf hu' (h.crossed f hlive)

lemma covered (r : Rewired used made a b added) (h : Intact (used ++ live) a) (hid : id < b.size) :
    ∃ f ∈ made :: live, Leads b.states f.entry id := by
  by_cases hold : id < a.size
  · obtain ⟨f, hf, leads⟩ := h.covered id hold
    rcases List.mem_append.1 hf with hf | hf
    · exact ⟨made, List.mem_cons_self, r.leads_made_iff.2 (.inr ⟨f, hf, leads⟩)⟩
    · exact ⟨f, List.mem_cons_of_mem made hf, (r.leads_iff h hf).2 leads⟩
  · exact ⟨made, List.mem_cons_self, r.leads_new id (Nat.le_of_not_lt hold) hid⟩

lemma inside (r : Rewired used made a b added) (h : Intact (used ++ live) a) (hf : f ∈ made :: live)
    (leads : Leads b.states f.entry id) : id < b.size := by
  have hsize := r.size_le
  rcases List.mem_cons.1 hf with rfl | hf
  · rcases r.leads_made_iff.1 leads with ⟨_, hlt⟩ | ⟨u, hu, leads⟩
    · exact hlt
    · have hlt := h.inside u (List.mem_append_left live hu) id leads
      omega
  · have hlt := h.inside f (List.mem_append_right used hf) id ((r.leads_iff h hf).1 leads)
    omega

/-- The new fragment has what the used ones had and new states, so it keeps apart from those still live. -/
lemma apart_of_made (r : Rewired used made a b added) (h : Intact (used ++ live) a) (hg : g ∈ live)
    (hmade : Leads b.states made.entry id) : ¬ Leads b.states g.entry id := by
  intro leads
  have hold := (r.leads_iff h hg).1 leads
  rcases r.leads_made_iff.1 hmade with ⟨hnew, _⟩ | ⟨u, hu, hu'⟩
  · have hlt := h.inside g (List.mem_append_right used hg) id hold
    omega
  · exact h.apart_of_mem hu hg hu' hold

lemma entry_free_of_mem (r : Rewired used made a b added) (h : Intact (used ++ live) a)
    (hf : f ∈ made :: live) : ¬ Edge b.states p symbol f.entry := by
  intro edge
  rcases List.mem_cons.1 hf with rfl | hf
  · exact r.entry_free p symbol edge
  · have hlive : f ∈ used ++ live := List.mem_append_right used hf
    rcases (r.edge_iff p symbol f.entry).1 edge with edge | hadded
    · exact h.entry_free f hlive p symbol edge
    · rcases r.target p symbol f.entry hadded with ⟨hnew, _⟩ | ⟨u, hu, hentry⟩
      · have hlt := h.entry_lt hlive
        omega
      · refine h.apart_of_mem hu hf ?_ (.refl _ f.entry)
        rw [hentry]
        exact .refl _ _

lemma exit_free_of_mem (r : Rewired used made a b added) (h : Intact (used ++ live) a)
    (hf : f ∈ made :: live) : ¬ Edge b.states f.exit symbol q := by
  intro edge
  rcases List.mem_cons.1 hf with rfl | hf
  · exact r.exit_free symbol q edge
  · have hlive : f ∈ used ++ live := List.mem_append_right used hf
    exact h.exit_free f hlive symbol q (r.edge_of_live h hf (h.crossed f hlive) edge)

/-- The step lemma: a step keeps the arena divided. -/
theorem intact (r : Rewired used made a b added) (h : Intact (used ++ live) a) :
    Intact (made :: live) b := by
  exact {
    accepting_iff := fun id => r.accepting_iff_exit h
    covered := fun id hid => r.covered h hid
    inside := fun f hf id leads => r.inside h hf leads
    apart := by
      refine List.pairwise_cons.2 ⟨?_, ?_⟩
      · intro g hg id hmade
        exact r.apart_of_made h hg hmade
      · refine List.Pairwise.imp_of_mem ?_ (List.pairwise_append.1 h.apart).2.1
        intro f g hf hg hfg id
        rw [r.leads_iff h hf, r.leads_iff h hg]
        exact hfg id
    entry_free := fun f hf p symbol => r.entry_free_of_mem h hf
    exit_free := fun f hf symbol q => r.exit_free_of_mem h hf
    crossed := by
      intro f hf
      rcases List.mem_cons.1 hf with rfl | hf
      · exact r.leads_exit
      · exact (r.leads_iff h hf).2 (h.crossed f (List.mem_append_right used hf))
  }

end Rewired

end Arena

end RegexNfa
