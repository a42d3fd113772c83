import RegexNfa.Path
import RegexNfa.Automaton.Rounds
import Mathlib.Data.List.Nodup
import Mathlib.Logic.Relation
import Mathlib.Tactic.Lemma

/-!
# What a search finds

`Automaton.explore` is one loop behind two searches.  It looks up the states that lead on from those already met,
along edges whose symbol passes the filter (`explore_looksUp`), and lists them if all of them are in the arena
(`mem_explore`).  On a closed automaton they are, so there the search always ends with a list.  The discipline has no
part in the answer, only in its order.

The loop invariant is `Searching`: what is pending has been met, and what has been met and is no longer pending is a
state and has handed on all its targets.  A round keeps it whichever pending state it takes (`Searching.round`), and
`explore` is a number of rounds (`explore_rounds`).  `closure_eq_ok` and `move_eq_ok` are the two set operations of a
run, each with its members; `closure_eq_ok_iff` says it of the closure in any automaton.
-/

namespace RegexNfa

open Relation

/-- `p` has an edge to `q` whose symbol passes `follow`. -/
def Along (states : List State) (follow : Symbol → Bool) (p q : Nat) : Prop :=
  ∃ symbol, follow symbol = true ∧ Edge states p symbol q

lemma along_iff_of_getElem? {states : List State} {follow : Symbol → Bool} {p q : Nat} {s : State}
    (hs : states[p]? = some s) : Along states follow p q ↔ q ∈ s.targetsAlong follow := by
  rw [State.mem_targetsAlong]
  constructor
  · intro h
    obtain ⟨symbol, hfollow, t, ht, hmem⟩ := h
    rw [hs] at ht
    cases ht
    exact ⟨symbol, hfollow, hmem⟩
  · intro h
    obtain ⟨symbol, hfollow, hmem⟩ := h
    exact ⟨symbol, hfollow, s, hs, hmem⟩

/-- Following ε edges alone spells the empty text. -/
lemma reflTransGen_epsilon_iff {states : List State} {p q : Nat} :
    ReflTransGen (Along states Symbol.isEpsilon) p q ↔ Path states p [] q := by
  constructor
  · intro h
    induction h using ReflTransGen.head_induction_on with
    | refl => exact .here q
    | head first _ ih =>
      obtain ⟨symbol, hsymbol, edge⟩ := first
      cases symbol with
      | epsilon => exact .epsilon edge ih
      | char c => exact absurd hsymbol (by simp [Symbol.isEpsilon])
  · intro h
    generalize htext : ([] : List Char) = text at h
    induction h with
    | here p => exact .refl
    | epsilon edge _ ih => exact .head ⟨_, rfl, edge⟩ (ih htext)
    | char => exact absurd htext (by simp)

/-! ## Looking up states -/

section LooksUp

variable {α β : Type} {count : Nat} {met met' : Nat → Prop} {x : Except Fault α}

/-- `x` looks up the ids `met` among `count` states: there is a value exactly if all of them are there, and otherwise the
fault of one that is not. -/
structure LooksUp (count : Nat) (met : Nat → Prop) (x : Except Fault α) : Prop where
  ok_iff : (∃ v, x = .ok v) ↔ ∀ q, met q → q < count
  fault : ∀ f, x = .error f → ∃ q, met q ∧ count ≤ q ∧ f = .stateOutsideArena count q

namespace LooksUp

lemma of_ok (v : α) (h : ∀ q, met q → q < count) : LooksUp count met (.ok v) :=
  ⟨iff_of_true ⟨v, rfl⟩ h, fun _ hf => nomatch hf⟩

lemma of_error {q : Nat} (hq : met q) (hlarge : count ≤ q) :
    LooksUp (α := α) count met (.error (.stateOutsideArena count q)) := by
  refine ⟨iff_of_false ?_ ?_, ?_⟩
  · exact fun hv => nomatch hv.choose_spec
  · exact fun hall => Nat.not_lt.2 hlarge (hall q hq)
  · intro f hf
    obtain rfl := Except.error.inj hf
    exact ⟨q, hq, hlarge, rfl⟩

lemma congr (h : LooksUp count met x) (hmet : ∀ q, met q ↔ met' q) : LooksUp count met' x := by
  obtain rfl : met = met' := funext fun q => propext (hmet q)
  exact h

/-- A step that always gives a value looks nothing up. -/
lemma bind_of_ok {f : α → Except Fault β} (h : LooksUp count met x) (hf : ∀ v, x = .ok v → ∃ w, f v = .ok w) :
    LooksUp count met (x >>= f) := by
  cases x with
  | ok v =>
    obtain ⟨w, hw⟩ := hf v rfl
    show LooksUp count met (f v)
    rw [hw]
    exact .of_ok w (h.ok_iff.1 ⟨v, rfl⟩)
  | error fault =>
    obtain ⟨q, hq, hlarge, rfl⟩ := h.fault fault rfl
    exact .of_error hq hlarge

lemma map (g : α → β) (h : LooksUp count met x) : LooksUp count met (g <$> x) := by
  have hbind : g <$> x = x >>= fun v => .ok (g v) := by
    cases x <;> rfl
  rw [hbind]
  exact h.bind_of_ok fun v _ => ⟨g v, rfl⟩

/-- One step looks up its ids, and the next one its own if there is a next one. -/
lemma bind {f : α → Except Fault β} (hx : LooksUp count met x) (hf : ∀ v, x = .ok v → LooksUp count met' (f v)) :
    LooksUp count (fun q => met q ∨ met' q) (x >>= f) := by
  cases x with
  | ok v =>
    have hinside := hx.ok_iff.1 ⟨v, rfl⟩
    have hnext := hf v rfl
    show LooksUp count _ (f v)
    cases hv : f v with
    | ok w =>
      rw [hv] at hnext
      have hinside' := hnext.ok_iff.1 ⟨w, rfl⟩
      exact .of_ok w fun q hq => hq.elim (hinside q) (hinside' q)
    | error fault =>
      rw [hv] at hnext
      obtain ⟨q, hq, hlarge, rfl⟩ := hnext.fault fault rfl
      exact .of_error (.inr hq) hlarge
  | error fault =>
    obtain ⟨q, hq, hlarge, rfl⟩ := hx.fault fault rfl
    exact .of_error (.inl hq) hlarge

lemma state (a : Automaton) (id : Nat) : LooksUp a.size (· = id) (a.state id) := by
  by_cases hid : id < a.size
  · rw [Automaton.state, State.lookup_of_lt hid]
    exact .of_ok _ fun q hq => hq ▸ hid
  · rw [Automaton.state, State.lookup_of_le (Nat.not_lt.1 hid)]
    exact .of_error rfl (Nat.not_lt.1 hid)

end LooksUp

end LooksUp

/-! ## Searches -/

namespace Automaton

variable {a : Automaton} {follow : Symbol → Bool} {d : Discipline} {pending seen found : List Nat} {n : Nat}
  {before after : Search}

/-- The loop invariant of a search. -/
structure Searching (a : Automaton) (follow : Symbol → Bool) (pending seen : List Nat) : Prop where
  met : pending ⊆ seen
  inside : ∀ p ∈ seen, p ∉ pending → p < a.size
  handedOn : ∀ p ∈ seen, p ∉ pending → ∀ q, Along a.states follow p q → q ∈ seen

/-- A search starts with all that is met still pending. -/
lemma Searching.start (h : ∀ id, id ∈ pending ↔ id ∈ seen) :
    a.Searching follow pending seen where
  met _ hid := (h _).1 hid
  inside p hp hpending := absurd ((h p).2 hp) hpending
  handedOn p hp hpending := absurd ((h p).2 hp) hpending

lemma state_of_lt {id : Nat} (h : id < a.size) : ∃ s, a.state id = .ok s ∧ a.states[id]? = some s :=
  ⟨_, State.lookup_of_lt h, List.getElem?_eq_getElem h⟩

lemma state_eq_ok {id : Nat} {s : State} : a.state id = .ok s ↔ a.states[id]? = some s :=
  State.lookup_eq_ok

/-- A round keeps the invariant. -/
lemma Searching.round (h : a.Searching follow before.pending before.seen) (r : a.Round follow before after) :
    a.Searching follow after.pending after.seen := by
  obtain @⟨id, s, rest, new, hs, htaken, _, hnew, hpending, hseen⟩ := r
  have htarget : ∀ q, q ∈ s.targetsAlong follow ↔ Along a.states follow id q := fun q =>
    (along_iff_of_getElem? (state_eq_ok.1 hs)).symm
  -- what is not pending after the round is the state taken, or was not pending before
  have hdone : ∀ p ∈ after.seen, p ∉ after.pending → p = id ∨ p ∈ before.seen ∧ p ∉ before.pending := by
    intro p hp hnot
    rw [hpending.mem_iff, List.mem_append, not_or] at hnot
    rw [hseen.mem_iff, List.mem_append] at hp
    by_cases hid : p = id
    · exact .inl hid
    · refine .inr ⟨hp.resolve_right hnot.1, ?_⟩
      rw [htaken.mem_iff, List.mem_cons, not_or]
      exact ⟨hid, hnot.2⟩
  refine ⟨?_, ?_, ?_⟩
  · intro q hq
    rw [hpending.mem_iff, List.mem_append] at hq
    rw [hseen.mem_iff, List.mem_append]
    rcases hq with hq | hq
    · exact .inr hq
    · exact .inl (h.met (htaken.mem_iff.2 (List.mem_cons_of_mem id hq)))
  · intro p hp hnot
    rcases hdone p hp hnot with rfl | ⟨hmet, hbehind⟩
    · exact (List.getElem?_eq_some_iff.1 (state_eq_ok.1 hs)).1
    · exact h.inside p hmet hbehind
  · intro p hp hnot q hpq
    rw [hseen.mem_iff, List.mem_append, hnew, htarget]
    rcases hdone p hp hnot with rfl | ⟨hmet, hbehind⟩
    · by_cases hq : q ∈ before.seen
      · exact .inl hq
      · exact .inr ⟨hpq, hq⟩
    · exact .inl (h.handedOn p hmet hbehind q hpq)

/-- A round meets nothing that the states met before do not lead to. -/
lemma Searching.leads_round (h : a.Searching follow before.pending before.seen) (r : a.Round follow before after)
    (q : Nat) : (∃ p ∈ after.seen, ReflTransGen (Along a.states follow) p q) ↔
      ∃ p ∈ before.seen, ReflTransGen (Along a.states follow) p q := by
  obtain @⟨id, s, rest, new, hs, htaken, _, hnew, _, hseen⟩ := r
  constructor
  · intro hq
    obtain ⟨p, hp, hpq⟩ := hq
    rw [hseen.mem_iff, List.mem_append] at hp
    rcases hp with hp | hp
    · exact ⟨p, hp, hpq⟩
    · have hid : Along a.states follow id p :=
        (along_iff_of_getElem? (state_eq_ok.1 hs)).2 ((hnew p).1 hp).1
      exact ⟨id, h.met (htaken.mem_iff.2 List.mem_cons_self), .head hid hpq⟩
  · intro hq
    obtain ⟨p, hp, hpq⟩ := hq
    exact ⟨p, hseen.mem_iff.2 (List.mem_append_left _ hp), hpq⟩

/-- When nothing is pending, the states met are all that they lead to. -/
lemma Searching.leads_nil (h : a.Searching follow [] seen) (q : Nat) :
    q ∈ seen ↔ ∃ p ∈ seen, ReflTransGen (Along a.states follow) p q := by
  constructor
  · intro hq
    exact ⟨q, hq, .refl⟩
  · intro hq
    obtain ⟨p, hp, hpq⟩ := hq
    induction hpq with
    | refl => exact hp
    | tail _ last ih => exact h.handedOn _ ih List.not_mem_nil _ last

/-! ## Any number of rounds -/

lemma Searching.rounds (h : a.Searching follow before.pending before.seen) (r : a.Rounds follow n before after) :
    a.Searching follow after.pending after.seen := by
  induction r with
  | none w => exact h
  | more first _ ih => exact ih (h.round first)

lemma Searching.leads_rounds (h : a.Searching follow before.pending before.seen)
    (r : a.Rounds follow n before after) (q : Nat) :
    (∃ p ∈ after.seen, ReflTransGen (Along a.states follow) p q) ↔
      ∃ p ∈ before.seen, ReflTransGen (Along a.states follow) p q := by
  induction r with
  | none w => rfl
  | more first _ ih => rw [ih (h.round first), h.leads_round first q]

/-- No state is met twice. -/
lemma Rounds.nodup (r : a.Rounds follow n before after) (h : before.seen.Nodup) : after.seen.Nodup := by
  induction r with
  | none w => exact h
  | more first _ ih =>
    obtain ⟨_, _, hnew, hmem, _, hseen⟩ := first
    refine ih (hseen.nodup_iff.2 (h.append hnew ?_))
    intro q hmet hq
    exact ((hmem q).1 hq).2 hmet

/-- Each round leaves one more of the states met behind. -/
lemma Rounds.length (r : a.Rounds follow n before after) :
    n + after.pending.length + before.seen.length = after.seen.length + before.pending.length := by
  induction r with
  | none w => rw [Nat.zero_add, Nat.add_comm]
  | more first _ ih =>
    obtain ⟨_, htaken, _, _, hpending, hseen⟩ := first
    have htaken := htaken.length_eq
    have hpending := hpending.length_eq
    have hseen := hseen.length_eq
    rw [List.length_cons] at htaken
    rw [List.length_append] at hpending hseen
    omega

/-- A search that ends has done some number of rounds. -/
lemma explore_rounds (hfound : a.explore follow d pending seen = .ok found) :
    ∃ n, a.Rounds follow n ⟨pending, seen⟩ ⟨[], found⟩ := by
  induction pending, seen using Automaton.explore.induct a follow d with
  | case1 seen =>
    rw [explore_nil] at hfound
    obtain rfl := Except.ok.inj hfound
    exact ⟨0, .none _⟩
  | case2 seen id rest fault hfault =>
    rw [explore_cons, hfault] at hfound
    cases hfound
  | case3 seen id rest s hs new ih =>
    rw [explore_cons, hs] at hfound
    obtain ⟨n, r⟩ := ih hfound
    exact ⟨n + 1, .more (round_explore d rest seen hs) r⟩

/-- What a search lists is what the states met lead to. -/
theorem mem_explore (h : a.Searching follow pending seen) (hfound : a.explore follow d pending seen = .ok found)
    (q : Nat) : q ∈ found ↔ ∃ p ∈ seen, ReflTransGen (Along a.states follow) p q := by
  obtain ⟨n, r⟩ := explore_rounds hfound
  have hleads := h.leads_rounds r q
  have hend := (h.rounds r).leads_nil q
  exact hend.trans hleads

/-- A search looks up what the states met lead to, and meets a fault only where they lead outside of the arena. -/
theorem explore_looksUp (h : a.Searching follow pending seen) :
    LooksUp a.size (fun q => ∃ p ∈ seen, ReflTransGen (Along a.states follow) p q)
      (a.explore follow d pending seen) := by
  induction pending, seen using Automaton.explore.induct a follow d with
  | case1 seen =>
    rw [explore_nil]
    refine .of_ok _ fun q hq => ?_
    exact h.inside q ((h.leads_nil q).2 hq) List.not_mem_nil
  | case2 seen id rest fault hfault =>
    have hid : ∃ p ∈ seen, ReflTransGen (Along a.states follow) p id := ⟨id, h.met List.mem_cons_self, .refl⟩
    rw [explore_cons, hfault]
    obtain ⟨q, rfl, hlarge, rfl⟩ := (LooksUp.state a id).fault fault hfault
    exact .of_error hid hlarge
  | case3 seen id rest s hs new ih =>
    have r : a.Round follow ⟨id :: rest, seen⟩ _ := round_explore d rest seen hs
    rw [explore_cons, hs]
    exact (ih (h.round r)).congr (h.leads_round r)

/-! ## The two set operations of a run -/

lemma searching_closure (a : Automaton) (s : StateSet) : a.Searching Symbol.isEpsilon s.ids.reverse s.ids :=
  .start fun _ => List.mem_reverse

/-- Closing a set looks up the states that its members lead to over ε edges. -/
lemma closure_looksUp (a : Automaton) (s : StateSet) :
    LooksUp a.size (fun q => ∃ p ∈ s, Path a.states p [] q) (a.closure s) := by
  refine ((explore_looksUp (searching_closure a s)).congr ?_).map _
  intro q
  simp only [reflTransGen_epsilon_iff, StateSet.mem_ids]

lemma mem_closure {s closed : StateSet} (h : a.closure s = .ok closed) (q : Nat) :
    q ∈ closed ↔ ∃ p ∈ s, Path a.states p [] q := by
  rw [closure] at h
  cases hfound : a.explore Symbol.isEpsilon .stack s.ids.reverse s.ids with
  | error fault =>
    rw [hfound] at h
    cases h
  | ok found =>
    rw [hfound] at h
    obtain rfl := Except.ok.inj h
    rw [StateSet.mem_ofList, mem_explore (searching_closure a s) hfound q]
    simp only [reflTransGen_epsilon_iff, StateSet.mem_ids]

/-- The closure of a set is told by its members, and by their being in the arena. -/
lemma closure_eq_ok_iff {s closed : StateSet} : a.closure s = .ok closed ↔
    (∀ q ∈ closed, q < a.size) ∧ ∀ q, q ∈ closed ↔ ∃ p ∈ s, Path a.states p [] q := by
  constructor
  · intro h
    have hmem := mem_closure h
    refine ⟨?_, hmem⟩
    intro q hq
    exact (closure_looksUp a s).ok_iff.1 ⟨closed, h⟩ q ((hmem q).1 hq)
  · intro h
    obtain ⟨hinside, hmem⟩ := h
    obtain ⟨closed', hclosed'⟩ := (closure_looksUp a s).ok_iff.2 fun q hq => hinside q ((hmem q).2 hq)
    rw [hclosed', StateSet.ext_mem fun q => (mem_closure hclosed' q).trans (hmem q).symm]

/-- Closing a set over ε edges. -/
theorem closure_eq_ok (ha : a.Closed) {s : StateSet} (hs : ∀ id ∈ s, id < a.size) :
    ∃ closed, a.closure s = .ok closed ∧ ∀ q, q ∈ closed ↔ ∃ p ∈ s, Path a.states p [] q := by
  have hinside : ∀ q, (∃ p ∈ s, Path a.states p [] q) → q < a.size := by
    intro q hq
    obtain ⟨p, hp, path⟩ := hq
    exact ha.path_lt path (hs p hp)
  obtain ⟨closed, hclosed⟩ := (closure_looksUp a s).ok_iff.2 hinside
  exact ⟨closed, hclosed, mem_closure hclosed⟩

/-- The targets of single edges labelled `c`, looked up state by state. -/
lemma mapM_targets_eq_ok (c : Char) {ids : List Nat} (hids : ∀ id ∈ ids, id < a.size) :
    ∃ targets, ids.mapM (fun id => a.targets id (.char c)) = .ok targets ∧
      ∀ q, q ∈ targets.flatten ↔ ∃ p ∈ ids, Edge a.states p (.char c) q := by
  induction ids with
  | nil => exact ⟨[], rfl, by simp⟩
  | cons id ids ih =>
    obtain ⟨later, hlater, hmem⟩ := ih fun i hi => hids i (List.mem_cons_of_mem id hi)
    obtain ⟨s, hs, hget⟩ := state_of_lt (hids id List.mem_cons_self)
    have htargets : a.targets id (.char c) = .ok (s.targets (.char c)) := by
      rw [targets, hs]
      rfl
    refine ⟨s.targets (.char c) :: later, ?_, ?_⟩
    · rw [List.mapM_cons, htargets, hlater]
      rfl
    · intro q
      have hedge : Edge a.states id (.char c) q ↔ (Symbol.char c, q) ∈ s.edges := by
        simp [Edge, hget]
      rw [List.flatten_cons, List.mem_append, State.mem_targets, hmem q, ← hedge]
      simp

/-- Reading one character from every state of a set. -/
theorem move_eq_ok (c : Char) {s : StateSet} (hs : ∀ id ∈ s, id < a.size) :
    ∃ moved, a.move s c = .ok moved ∧ ∀ q, q ∈ moved ↔ ∃ p ∈ s, Edge a.states p (.char c) q := by
  obtain ⟨targets, htargets, hmem⟩ := mapM_targets_eq_ok c hs
  refine ⟨.ofList targets.flatten, ?_, ?_⟩
  · rw [move, htargets]
    rfl
  · intro q
    rw [StateSet.mem_ofList, hmem q]
    rfl

/-- A path over one more character goes through a state that the character enters. -/
lemma path_through_move {active moved : StateSet} {start q : Nat} {read rest : List Char} {c : Char}
    (hactive : ∀ q, q ∈ active ↔ Path a.states start read q)
    (hmoved : ∀ q, q ∈ moved ↔ ∃ p ∈ active, Edge a.states p (.char c) q) :
    Path a.states start (read ++ c :: rest) q ↔ ∃ p ∈ moved, Path a.states p rest q := by
  rw [path_append_cons]
  constructor
  · intro hpath
    obtain ⟨x, p, hx, edge, hp⟩ := hpath
    exact ⟨p, (hmoved p).2 ⟨x, (hactive x).2 hx, edge⟩, hp⟩
  · intro hentered
    obtain ⟨p, hp, hrest⟩ := hentered
    obtain ⟨x, hx, edge⟩ := (hmoved p).1 hp
    exact ⟨x, p, (hactive x).1 hx, edge, hrest⟩

end Automaton

end RegexNfa
