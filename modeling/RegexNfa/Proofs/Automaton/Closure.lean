import RegexNfa.Proofs.Run.Configurations
import Mathlib.Order.Bounds.Defs

/-!
# Closing a set of states

`Automaton.closure` gives the least set that contains a given one and that no ε edge leaves (`Closed.closure_least`).
What the closure does to several sets follows from who its members are.

That the order of work is free is a fact about any search of a closed automaton (`Closed.exhausts`).  What has been met
after some rounds is part of what is to be found, and no state of it twice.  Since each round leaves one more of these
states behind, the rounds are no more than there are states to be found, and the search is over when they are as many.
-/

namespace RegexNfa

open Relation

lemma along_isEpsilon {states : List State} :
    Along states Symbol.isEpsilon = fun p q => Edge states p .epsilon q := by
  funext p q
  apply propext
  constructor
  · intro h
    obtain ⟨symbol, hsymbol, edge⟩ := h
    cases symbol with
    | epsilon => exact edge
    | char c => exact absurd hsymbol (by simp [Symbol.isEpsilon])
  · intro edge
    exact ⟨.epsilon, rfl, edge⟩

namespace Automaton

variable {a : Automaton} {follow : Symbol → Bool} {begun w : Search} {s t closed closed' found : StateSet} {n : Nat}

/-- No ε edge leaves `t`. -/
def EpsilonClosed (a : Automaton) (t : Set Nat) : Prop :=
  ∀ p ∈ t, ∀ q, Edge a.states p .epsilon q → q ∈ t

/-! ## Any order of work -/

lemma Closed.along_lt (ha : a.Closed) {p q : Nat} (h : ReflTransGen (Along a.states follow) p q) (hp : p < a.size) :
    q < a.size := by
  induction h with
  | refl => exact hp
  | tail _ last _ =>
    obtain ⟨_, _, edge⟩ := last
    exact ha.edge_lt edge

/-- What has been met is part of what is to be found. -/
lemma Searching.subset_found (h : a.Searching follow begun.pending begun.seen)
    (hfound : ∀ q, q ∈ found ↔ ∃ p ∈ begun.seen, ReflTransGen (Along a.states follow) p q)
    (r : a.Rounds follow n begun w) : w.seen ⊆ found.ids := by
  intro q hq
  have hleads : ∃ p ∈ w.seen, ReflTransGen (Along a.states follow) p q := ⟨q, hq, .refl⟩
  rw [h.leads_rounds r, ← hfound] at hleads
  exact hleads

/-- If all was pending at first, a state that has been met is pending or has had its round. -/
lemma Rounds.length_eq (hpending : begun.pending.Perm begun.seen) (r : a.Rounds follow n begun w) :
    n + w.pending.length = w.seen.length := by
  have hlength := r.length
  have hall := hpending.length_eq
  omega

/-- A search that starts with all it has met pending, each state once, ends with what these states lead to. -/
theorem Closed.exhausts (ha : a.Closed) (hpending : begun.pending.Perm begun.seen) (hnodup : begun.seen.Nodup)
    (hinside : ∀ id ∈ begun.seen, id < a.size)
    (hfound : ∀ q, q ∈ found ↔ ∃ p ∈ begun.seen, ReflTransGen (Along a.states follow) p q) :
    a.Exhausts follow begun found := by
  have hstart : a.Searching follow begun.pending begun.seen := .start fun _ => hpending.mem_iff
  refine ⟨?_, ?_, ?_⟩
  · intro n w r
    rw [r.length_eq hpending]
    exact (r.nodup hnodup).length_le_of_subset (hstart.subset_found hfound r)
  · intro n w r hne
    obtain ⟨pending, seen⟩ := w
    obtain ⟨id, rest, rfl⟩ := List.exists_cons_of_ne_nil hne
    have hid : id ∈ found := hstart.subset_found hfound r ((hstart.rounds r).met List.mem_cons_self)
    obtain ⟨p, hp, hleads⟩ := (hfound id).1 hid
    obtain ⟨s, hs, _⟩ := state_of_lt (ha.along_lt hleads (hinside p hp))
    exact ⟨_, round_explore .stack rest seen hs⟩
  · intro n w r hnil
    have hmem : ∀ q, q ∈ w.seen ↔ q ∈ found.ids := by
      intro q
      have hend := hstart.rounds r
      rw [hnil] at hend
      rw [hend.leads_nil, hstart.leads_rounds r, ← hfound, StateSet.mem_ids]
    have hperm := (List.perm_ext_iff_of_nodup (r.nodup hnodup) found.nodup_ids).2 hmem
    have hlength := r.length_eq hpending
    rw [hnil, List.length_nil, Nat.add_zero, hperm.length_eq] at hlength
    refine ⟨hlength, StateSet.ext_mem fun q => ?_⟩
    rw [StateSet.mem_ofList, hmem, StateSet.mem_ids]

/-- Under either discipline the search is one of these, and has as many rounds. -/
lemma Closed.explore_exhausts (ha : a.Closed) (d : Discipline) (hpending : begun.pending.Perm begun.seen)
    (hinside : ∀ id ∈ begun.seen, id < a.size) (h : a.Exhausts follow begun found) :
    ∃ order, a.explore follow d begun.pending begun.seen = .ok order ∧
      a.Rounds follow found.ids.length begun ⟨[], order⟩ ∧ StateSet.ofList order = found := by
  have hstart : a.Searching follow begun.pending begun.seen := .start fun _ => hpending.mem_iff
  have hleads : ∀ q, (∃ p ∈ begun.seen, ReflTransGen (Along a.states follow) p q) → q < a.size := by
    intro q hq
    obtain ⟨p, hp, hpq⟩ := hq
    exact ha.along_lt hpq (hinside p hp)
  obtain ⟨order, horder⟩ := (explore_looksUp (d := d) hstart).ok_iff.2 hleads
  obtain ⟨n, r⟩ := explore_rounds horder
  obtain ⟨rfl, hfound⟩ := h.finds n _ r rfl
  exact ⟨order, horder, r, hfound⟩

/-! ## One set and several -/

lemma isLeast_of_reflTransGen
    (hclosed : ∀ q, q ∈ closed ↔ ∃ p ∈ s, ReflTransGen (fun p q => Edge a.states p .epsilon q) p q) :
    IsLeast {t : Set Nat | (∀ p ∈ s, p ∈ t) ∧ a.EpsilonClosed t} {q | q ∈ closed} := by
  refine ⟨⟨?_, ?_⟩, ?_⟩
  · intro p hp
    exact (hclosed p).2 ⟨p, hp, .refl⟩
  · intro p hp q edge
    obtain ⟨m, hm, hleads⟩ := (hclosed p).1 hp
    exact (hclosed q).2 ⟨m, hm, hleads.tail edge⟩
  · intro t ht q hq
    obtain ⟨hcontains, hstays⟩ := ht
    obtain ⟨p, hp, hleads⟩ := (hclosed q).1 hq
    clear hq
    induction hleads with
    | refl => exact hcontains p hp
    | tail _ edge ih => exact hstays _ ih _ edge

lemma closure_idem (h : a.closure s = .ok closed) : a.closure closed = .ok closed := by
  obtain ⟨hinside, hmem⟩ := closure_eq_ok_iff.1 h
  refine closure_eq_ok_iff.2 ⟨hinside, ?_⟩
  intro q
  constructor
  · intro hq
    exact ⟨q, hq, .here q⟩
  · intro hq
    obtain ⟨p, hp, path⟩ := hq
    obtain ⟨m, hm, before⟩ := (hmem p).1 hp
    exact (hmem q).2 ⟨m, hm, before.append path⟩

lemma closure_mono (hs : a.closure s = .ok closed) (ht : a.closure t = .ok closed') (hst : s ⊆ t) :
    closed ⊆ closed' := by
  intro q hq
  obtain ⟨p, hp, path⟩ := (mem_closure hs q).1 hq
  exact (mem_closure ht q).2 ⟨p, hst p hp, path⟩

lemma closure_union (hs : a.closure s = .ok closed) (ht : a.closure t = .ok closed') :
    a.closure (s ∪ t) = .ok (closed ∪ closed') := by
  obtain ⟨hinside, hmem⟩ := closure_eq_ok_iff.1 hs
  obtain ⟨hinside', hmem'⟩ := closure_eq_ok_iff.1 ht
  refine closure_eq_ok_iff.2 ⟨?_, ?_⟩
  · intro q hq
    rcases StateSet.mem_union.1 hq with hq | hq
    · exact hinside q hq
    · exact hinside' q hq
  · intro q
    simp only [StateSet.mem_union, hmem, hmem', or_and_right, exists_or]

/-- Closing a set of states of a closed automaton always ends, with all that ε edges lead to from the set.  This is the
least set that contains it and that no ε edge leaves.  No order of work changes it or the number of rounds.  Closing
again changes nothing, a larger set has no smaller closure, and the closure of a union is the union of the closures. -/
theorem Closed.closure_least (ha : a.Closed) (hs : ∀ id ∈ s, id < a.size) :
    ∃ closed, a.closure s = .ok closed ∧
      (∀ q, q ∈ closed ↔ ∃ p ∈ s, ReflTransGen (fun p q => Edge a.states p .epsilon q) p q) ∧
      IsLeast {t : Set Nat | (∀ p ∈ s, p ∈ t) ∧ a.EpsilonClosed t} {q | q ∈ closed} ∧
      (∀ begun : Search, begun.pending.Perm s.ids → begun.seen.Perm s.ids →
        a.Exhausts Symbol.isEpsilon begun closed ∧
        ∀ d, ∃ order, a.explore Symbol.isEpsilon d begun.pending begun.seen = .ok order ∧
          a.Rounds Symbol.isEpsilon closed.ids.length begun ⟨[], order⟩ ∧ StateSet.ofList order = closed) ∧
      a.closure closed = .ok closed ∧
      ∀ t : StateSet, (∀ id ∈ t, id < a.size) → ∃ closed', a.closure t = .ok closed' ∧
        (s ⊆ t → closed ⊆ closed') ∧ a.closure (s ∪ t) = .ok (closed ∪ closed') := by
  obtain ⟨closed, hclosed, hmem⟩ := closure_eq_ok ha hs
  have hleads : ∀ q, q ∈ closed ↔ ∃ p ∈ s, ReflTransGen (Along a.states Symbol.isEpsilon) p q := by
    intro q
    simp only [hmem q, reflTransGen_epsilon_iff]
  have hedges : ∀ q, q ∈ closed ↔ ∃ p ∈ s, ReflTransGen (fun p q => Edge a.states p .epsilon q) p q := by
    rw [along_isEpsilon] at hleads
    exact hleads
  refine ⟨closed, hclosed, hedges, isLeast_of_reflTransGen hedges, ?_, closure_idem hclosed, ?_⟩
  · intro begun hpending hseen
    have hmet : ∀ q, q ∈ begun.seen ↔ q ∈ s := fun q => hseen.mem_iff
    have hall : begun.pending.Perm begun.seen := hpending.trans hseen.symm
    have hinside : ∀ id ∈ begun.seen, id < a.size := fun id hid => hs id ((hmet id).1 hid)
    have hexhausts : a.Exhausts Symbol.isEpsilon begun closed := by
      refine ha.exhausts hall (hseen.nodup_iff.2 s.nodup_ids) hinside ?_
      simpa only [hmet] using hleads
    exact ⟨hexhausts, fun d => ha.explore_exhausts d hall hinside hexhausts⟩
  · intro t ht
    obtain ⟨closed', hclosed', _⟩ := closure_eq_ok ha ht
    exact ⟨closed', hclosed', closure_mono hclosed hclosed', closure_union hclosed hclosed'⟩

/-- The two states of the ε cycle are found from one of them and from the state that leads into it, whichever is taken
first.  The loop at `2` adds nothing. -/
theorem tangled_closure_least :
    tangled.Closed ∧ tangled.closure (.ofList [1, 3]) = .ok (.ofList [0, 1, 3]) ∧
      tangled.Exhausts Symbol.isEpsilon ⟨[1, 3], [1, 3]⟩ (.ofList [0, 1, 3]) ∧
      ∃ closed', tangled.closure (.ofList [2]) = .ok closed' ∧
        tangled.closure (.ofList [1, 2, 3]) = .ok (.ofList [0, 1, 3] ∪ closed') := by
  have htangled : tangled.Closed := by decide
  have hinside : ∀ id ∈ [1, 3], id < tangled.size := by decide
  have hloop : ∀ id ∈ [2], id < tangled.size := by decide
  obtain ⟨closed, hclosed, _, ⟨⟨hseeds, hleaves⟩, hleast⟩, horders, _, hothers⟩ :=
    Closed.closure_least (s := .ofList [1, 3]) htangled hinside
  have hmore : ∀ p ∈ [1, 3], p ∈ [0, 1, 3] := by decide
  have hback : ∀ p ∈ [0, 1, 3], ∀ s ∈ tangled.states[p]?, ∀ e ∈ s.edges, e.1 = .epsilon → e.2 ∈ [0, 1, 3] := by decide
  have hstays : tangled.EpsilonClosed {q | q ∈ [0, 1, 3]} := by
    intro p hp q edge
    obtain ⟨s, hs, hmem⟩ := edge
    exact hback p hp s hs _ hmem rfl
  have hedge : Edge tangled.states 3 .epsilon 0 := ⟨_, rfl, List.mem_singleton_self _⟩
  have hthese : closed = .ofList [0, 1, 3] := by
    apply StateSet.ext_mem
    intro q
    rw [StateSet.mem_ofList]
    constructor
    · intro hq
      exact hleast ⟨hmore, hstays⟩ hq
    · intro hq
      have hthree : q = 0 ∨ q = 1 ∨ q = 3 := by simpa using hq
      rcases hthree with rfl | rfl | rfl
      · exact hleaves 3 (hseeds 3 (by decide)) 0 hedge
      · exact hseeds 1 (by decide)
      · exact hseeds 3 (by decide)
  subst hthese
  obtain ⟨closed', hclosed', _, hunion⟩ := hothers (.ofList [2]) hloop
  exact ⟨htangled, hclosed, (horders ⟨[1, 3], [1, 3]⟩ (.refl _) (.refl _)).1, closed', hclosed', hunion⟩

end Automaton

end RegexNfa
