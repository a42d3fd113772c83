import RegexNfa.Arena.Grown
import RegexNfa.Proofs.Arena.Intact
import Mathlib.Logic.ExistsUnique

/-!
# An arena stays divided under any history of rules

Each of the four rules is a step in the sense of `Arena.Rewired`: three of them add a pair of states
(`Rewired.ofPair`), concatenation adds none.  `Grown.intact` is the run lemma that follows, in whatever
order the fragments are used.
-/

namespace RegexNfa

namespace Arena

variable {a b : Arena} {used live : List Fragment} {f g : Fragment} {id : Nat}
  {added : Nat → Symbol → Nat → Prop}

/-! ## The four rules are such steps -/

/-- A rule that adds an entry and an exit of its own. -/
lemma Rewired.ofPair (h : Intact (used ++ live) a) (hsize : b.size = a.size + 2)
    (hedge : ∀ p symbol q, Edge b.states p symbol q ↔ Edge a.states p symbol q ∨ added p symbol q)
    (hsource : ∀ p symbol q, added p symbol q → p = a.size ∨ ∃ g ∈ used, p = g.exit)
    (htarget : ∀ p symbol q, added p symbol q → q = a.size + 1 ∨ ∃ g ∈ used, q = g.entry)
    (haccepting : ∀ id, Accepting b.states id ↔
      id = a.size + 1 ∨ Accepting a.states id ∧ ∀ g ∈ used, id ≠ g.exit)
    (hused : ∀ g ∈ used, added a.size .epsilon g.entry)
    (hexit : Leads b.states a.size (a.size + 1)) :
    Rewired used ⟨a.size, a.size + 1⟩ a b added := by
  have hmem : ∀ {g}, g ∈ used → g ∈ used ++ live := List.mem_append_left live
  exact {
    size_le := by omega
    edge_iff := hedge
    source := by
      intro p symbol q hadded
      rcases hsource p symbol q hadded with rfl | hexits
      · exact .inl (Nat.le_refl _)
      · exact .inr hexits
    target := by
      intro p symbol q hadded
      rcases htarget p symbol q hadded with rfl | hentries
      · exact .inl ⟨by omega, by omega⟩
      · exact .inr hentries
    accepting_iff := haccepting
    entry_free := by
      intro p symbol edge
      rcases (hedge p symbol a.size).1 edge with edge | hadded
      · exact absurd (h.edge_lt edge) (Nat.lt_irrefl _)
      · rcases htarget p symbol a.size hadded with hnew | ⟨g, hg, hentry⟩
        · omega
        · have hlt := h.entry_lt (hmem hg)
          omega
    exit_free := by
      intro symbol q edge
      rcases (hedge (a.size + 1) symbol q).1 edge with edge | hadded
      · have hlt : a.size + 1 < a.size := edge.lt_length
        omega
      · rcases hsource (a.size + 1) symbol q hadded with hnew | ⟨g, hg, hexit⟩
        · omega
        · have hlt := h.exit_lt (hmem hg)
          omega
    entry_own := .inl ⟨Nat.le_refl _, by show a.size < b.size; omega⟩
    leads_new := by
      intro id hge hlt
      by_cases hid : id = a.size
      · rw [hid]
        exact .refl _ _
      · have hnext : id = a.size + 1 := by omega
        rw [hnext]
        exact hexit
    leads_used := by
      intro g hg
      exact .ofEdge ((hedge _ _ _).2 (.inr (hused g hg)))
    leads_exit := hexit
  }

lemma rewired_char (h : Intact live a) (c : Char) :
    Rewired [] (a.char c).1 a (a.char c).2
      fun p symbol q => p = a.size ∧ symbol = .char c ∧ q = a.size + 1 := by
  have h' : Intact ([] ++ live) a := h
  refine Rewired.ofPair h' (size_char a c) ?_ ?_ ?_ ?_ ?_ ?_
  · intro p symbol q
    exact edge_char c
  · intro p symbol q hadded
    exact .inl hadded.1
  · intro p symbol q hadded
    exact .inl hadded.2.2
  · intro id
    rw [accepting_char, or_comm]
    simp
  · intro g hg
    exact absurd hg List.not_mem_nil
  · exact .ofEdge ((edge_char c).2 (.inr ⟨rfl, rfl, rfl⟩))

lemma rewired_concat {left right : Fragment} (h : Intact ([left, right] ++ live) a)
    (hmade : a.concat left right = .ok (f, b)) :
    Rewired [left, right] f a b
      fun p symbol q => p = left.exit ∧ symbol = .epsilon ∧ q = right.entry := by
  obtain ⟨rfl, _⟩ := concat_eq_ok.1 hmade
  have hleft : left ∈ [left, right] ++ live := by simp
  have hright : right ∈ [left, right] ++ live := by simp
  have hsize : b.size = a.size := size_concat hmade
  have hapart : ∀ id, Leads a.states left.entry id → ¬ Leads a.states right.entry id :=
    (List.pairwise_cons.1 h.apart).1 right (by simp)
  have hmono : ∀ p symbol q, Edge a.states p symbol q → Edge b.states p symbol q :=
    fun p symbol q edge => (edge_concat hmade).2 (.inl edge)
  have hlink : Leads b.states left.entry right.entry :=
    ((h.crossed left hleft).mono hmono).trans (.ofEdge ((edge_concat hmade).2 (.inr ⟨rfl, rfl, rfl⟩)))
  -- the right exit goes on accepting, so it may be counted as new
  have haccepting : Accepting a.states right.exit := (h.accepting_iff _).2 ⟨right, hright, rfl⟩
  have hexits : right.exit ≠ left.exit := by
    intro heq
    refine hapart left.exit (h.crossed left hleft) ?_
    rw [← heq]
    exact h.crossed right hright
  exact {
    size_le := by omega
    edge_iff := fun p symbol q => edge_concat hmade
    source := fun p symbol q hadded => .inr ⟨left, by simp, hadded.1⟩
    target := fun p symbol q hadded => .inr ⟨right, by simp, hadded.2.2⟩
    accepting_iff := by
      intro id
      rw [accepting_concat hmade]
      constructor
      · intro hid
        by_cases heq : id = right.exit
        · exact .inl heq
        · exact .inr ⟨hid.1, by simp [hid.2, heq]⟩
      · intro hid
        rcases hid with rfl | ⟨hid, hne⟩
        · exact ⟨haccepting, hexits⟩
        · exact ⟨hid, hne left (by simp)⟩
    entry_free := by
      intro p symbol edge
      rcases (edge_concat hmade).1 edge with edge | ⟨_, _, hentry⟩
      · exact h.entry_free left hleft p symbol edge
      · refine hapart left.entry (.refl _ _) ?_
        rw [show left.entry = right.entry from hentry]
        exact .refl _ _
    exit_free := by
      intro symbol q edge
      rcases (edge_concat hmade).1 edge with edge | ⟨hexit, _⟩
      · exact h.exit_free right hright symbol q edge
      · exact hexits hexit
    entry_own := .inr ⟨left, by simp, rfl⟩
    leads_new := by
      intro id hge hlt
      omega
    leads_used := by
      intro g hg
      simp only [List.mem_cons, List.not_mem_nil, or_false] at hg
      rcases hg with rfl | rfl
      · exact .refl _ _
      · exact hlink
    leads_exit := hlink.trans ((h.crossed right hright).mono hmono)
  }

lemma rewired_union {left right : Fragment} (h : Intact ([left, right] ++ live) a)
    (hmade : a.union left right = .ok (f, b)) :
    Rewired [left, right] f a b fun p symbol q =>
      p = a.size ∧ symbol = .epsilon ∧ (q = left.entry ∨ q = right.entry) ∨
        (p = left.exit ∨ p = right.exit) ∧ symbol = .epsilon ∧ q = a.size + 1 := by
  obtain ⟨rfl, _⟩ := union_eq_ok.1 hmade
  have hleft : left ∈ [left, right] ++ live := by simp
  have hexits : ∀ g ∈ [left, right], a.size + 1 ≠ g.exit := by
    intro g hg
    have hlt := h.exit_lt (List.mem_append_left live hg)
    omega
  refine Rewired.ofPair h (size_union hmade) ?_ ?_ ?_ ?_ ?_ ?_
  · intro p symbol q
    exact edge_union hmade
  · intro p symbol q hadded
    simpa using hadded.imp (fun hnew => hnew.1) (fun hold => hold.1)
  · intro p symbol q hadded
    simpa using hadded.symm.imp (fun hnew => hnew.2.2) (fun hold => hold.2.2)
  · intro id
    rw [accepting_union hmade]
    simp only [List.forall_mem_cons, List.not_mem_nil, false_implies, implies_true, and_true]
      at hexits ⊢
    constructor
    · intro hid
      exact hid.1.symm.imp_right fun haccepting => ⟨haccepting, hid.2⟩
    · intro hid
      rcases hid with rfl | ⟨haccepting, hne⟩
      · exact ⟨.inr rfl, hexits⟩
      · exact ⟨.inl haccepting, hne⟩
  · intro g hg
    simp only [List.mem_cons, List.not_mem_nil, or_false] at hg
    exact .inl ⟨rfl, rfl, hg.imp (congrArg Fragment.entry) (congrArg Fragment.entry)⟩
  · have hin : Leads b.states a.size left.entry :=
      .ofEdge ((edge_union hmade).2 (.inr (.inl ⟨rfl, rfl, .inl rfl⟩)))
    have hout : Leads b.states left.exit (a.size + 1) :=
      .ofEdge ((edge_union hmade).2 (.inr (.inr ⟨.inl rfl, rfl, rfl⟩)))
    have hcross : Leads b.states left.entry left.exit :=
      (h.crossed left hleft).mono fun p symbol q edge => (edge_union hmade).2 (.inl edge)
    exact hin.trans (hcross.trans hout)

lemma rewired_star {inner : Fragment} (h : Intact ([inner] ++ live) a)
    (hmade : a.star inner = .ok (f, b)) :
    Rewired [inner] f a b fun p symbol q =>
      (p = a.size ∨ p = inner.exit) ∧ symbol = .epsilon ∧ (q = inner.entry ∨ q = a.size + 1) := by
  obtain ⟨rfl, _⟩ := star_eq_ok.1 hmade
  have hexit : a.size + 1 ≠ inner.exit := by
    have hlt := h.exit_lt (f := inner) (by simp)
    omega
  refine Rewired.ofPair h (size_star hmade) ?_ ?_ ?_ ?_ ?_ ?_
  · intro p symbol q
    exact edge_star hmade
  · intro p symbol q hadded
    simpa using hadded.1
  · intro p symbol q hadded
    simpa using hadded.2.2.symm
  · intro id
    rw [accepting_star hmade]
    simp only [List.forall_mem_cons, List.not_mem_nil, false_implies, implies_true, and_true]
    constructor
    · intro hid
      exact hid.1.symm.imp_right fun haccepting => ⟨haccepting, hid.2⟩
    · intro hid
      rcases hid with rfl | ⟨haccepting, hne⟩
      · exact ⟨.inr rfl, hexit⟩
      · exact ⟨.inl haccepting, hne⟩
  · intro g hg
    rw [List.mem_singleton.1 hg]
    exact ⟨.inl rfl, rfl, .inl rfl⟩
  · exact .ofEdge ((edge_star hmade).2 (.inr ⟨.inl rfl, rfl, .inr rfl⟩))

/-! ## After any history -/

lemma intact_fresh (logging : Bool) : Intact [] (fresh logging) := by
  have hnone : ∀ id : Nat, (fresh logging).states[id]? = none := fun _ => rfl
  exact {
    accepting_iff := by
      intro id
      simp [Accepting, hnone]
    covered := by
      intro id hid
      exact absurd hid (Nat.not_lt_zero id)
    inside := by simp
    apart := .nil
    entry_free := by simp
    exit_free := by simp
    crossed := by simp
  }

/-- The fragments of a history's live list. -/
def fragments (live : List LiveFragment) : List Fragment :=
  live.map LiveFragment.fragment

/-- The run lemma: whatever has been built and in whatever order, the arena is divided. -/
theorem Grown.intact {live : List LiveFragment} (h : Grown live a) : Intact (fragments live) a := by
  induction h with
  | fresh logging => exact intact_fresh logging
  | char _ c ih => exact (rewired_char ih c).intact ih
  | concat _ hmade ih => exact (rewired_concat ih hmade).intact ih
  | union _ hmade ih => exact (rewired_union ih hmade).intact ih
  | star _ hmade ih => exact (rewired_star ih hmade).intact ih
  | reorder _ hperm ih => exact ih.perm (hperm.map _)

/-- What holds after any history of rules, each live fragment named by its place in the live list: ids are
positions, exactly the exits accept, every state has one owner, no edge joins two owners, nothing leads
into an entry or out of an exit, and every rule applies to every live fragment. -/
theorem Grown.fragments_divide_arena {live : List LiveFragment} (h : Grown live a) :
    a.Numbered ∧
    (∀ id, Accepting a.states id ↔ ∃ f ∈ fragments live, f.exit = id) ∧
    (∀ id < a.size, ∃! i : Nat, ∃ f : Fragment, (fragments live)[i]? = some f ∧ Leads a.states f.entry id) ∧
    (∀ f ∈ fragments live, ∀ id, Leads a.states f.entry id → id < a.size) ∧
    (∀ (i j : Nat) (f g : Fragment), (fragments live)[i]? = some f → (fragments live)[j]? = some g →
      i ≠ j → ∀ p symbol q, Edge a.states p symbol q → Leads a.states f.entry p →
        ¬ Leads a.states g.entry q) ∧
    (∀ f ∈ fragments live, (∀ p symbol, ¬ Edge a.states p symbol f.entry) ∧
      ∀ symbol q, ¬ Edge a.states f.exit symbol q) ∧
    ∀ l ∈ fragments live, ∀ r ∈ fragments live,
      (∃ f b, a.concat l r = .ok (f, b)) ∧ (∃ f b, a.union l r = .ok (f, b)) ∧
        ∃ f b, a.star l = .ok (f, b) := by
  have hintact := h.intact
  refine ⟨h.numbered, hintact.accepting_iff, ?_, hintact.inside, ?_, ?_, ?_⟩
  · intro id hid
    obtain ⟨f, hf, leads⟩ := hintact.covered id hid
    obtain ⟨i, hi⟩ := List.mem_iff_getElem?.1 hf
    refine ⟨i, ⟨f, hi, leads⟩, ?_⟩
    intro j hj
    obtain ⟨g, hj, hg⟩ := hj
    exact hintact.index_eq hj hi hg leads
  · intro i j f g hi hj hij p symbol q edge hf hg
    exact hij (hintact.index_eq hi hj (hf.trans (.ofEdge edge)) hg)
  · intro f hf
    exact ⟨hintact.entry_free f hf, hintact.exit_free f hf⟩
  · intro l hl r hr
    have hleft := hintact.exit_lt hl
    exact ⟨exists_concat hleft, exists_union hleft (hintact.exit_lt hr), exists_star hleft⟩

/-- Three characters, then the first and the last joined around the second. -/
theorem fragments_divide_arena_out_of_order :
    ∃ (a : Arena) (ac b : LiveFragment),
      Grown [ac, b] a ∧ ac = ⟨⟨0, 5⟩, .concat (.literal 'a') (.literal 'c')⟩ ∧
        b = ⟨⟨2, 3⟩, .literal 'b'⟩ ∧ a.size = 6 ∧
        ∀ id, Accepting a.states id ↔ ∃ f ∈ fragments [ac, b], f.exit = id := by
  have hchars := (((Grown.fresh false).char 'a').char 'b').char 'c'
  have hshuffled := hchars.reorder (List.perm_append_singleton _ [_, _])
  have hjoined := hshuffled.concat rfl
  exact ⟨_, _, _, hjoined, rfl, rfl, rfl, hjoined.fragments_divide_arena.2.1⟩

end Arena

end RegexNfa
