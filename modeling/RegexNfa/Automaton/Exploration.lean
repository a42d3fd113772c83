import RegexNfa.Automaton

/-!
# Exploring an automaton

Both searches of the library are one: take a pending state, note where its edges lead, and put the
states not met before among the pending ones.  With a queue this lists what is reachable, breadth
first; with a stack and ε edges only it closes a set of states.

A target outside the arena is met as a fault when its turn comes.  The search ends because each round
either meets a target of some edge for the first time or leaves one state less pending.
-/

namespace RegexNfa

/-- Where newcomers wait: behind all that is pending, or, last come, before it. -/
inductive Discipline where
  | queue
  | stack
deriving DecidableEq, Repr

namespace Discipline

/-- The pending states once `newcomers` have joined `rest`; the head is next. -/
def join : Discipline → (newcomers rest : List Nat) → List Nat
  | queue, newcomers, rest => rest ++ newcomers
  | stack, newcomers, rest => newcomers.reverse ++ rest

@[simp] theorem mem_join {d : Discipline} {newcomers rest : List Nat} {t : Nat} :
    t ∈ d.join newcomers rest ↔ t ∈ newcomers ∨ t ∈ rest := by
  cases d <;> simp [join, or_comm]

@[simp] theorem join_nil (d : Discipline) (rest : List Nat) : d.join [] rest = rest := by
  cases d <;> simp [join]

end Discipline

namespace Automaton

/-- The members of `targets` not yet `seen`, each once, in the order of first occurrence. -/
def newcomers (seen targets : List Nat) : List Nat :=
  (firstSeen targets).filter (· ∉ seen)

@[simp] theorem mem_newcomers {seen targets : List Nat} {t : Nat} :
    t ∈ newcomers seen targets ↔ t ∈ targets ∧ t ∉ seen := by
  simp [newcomers]

theorem nodup_newcomers (seen targets : List Nat) : (newcomers seen targets).Nodup :=
  (nodup_firstSeen targets).filter _

/-- The edges whose targets have not been met. -/
def unmet (a : Automaton) (seen : List Nat) : List Nat :=
  (a.states.flatMap State.successors).filter (· ∉ seen)

theorem unmet_append_length_lt {a : Automaton} {seen new : List Nat} {s : State} {t : Nat}
    (hs : s ∈ a.states) (ht : t ∈ s.successors) (hseen : t ∉ seen) (hnew : t ∈ new) :
    (a.unmet (seen ++ new)).length < (a.unmet seen).length := by
  have hsub : a.unmet (seen ++ new) = (a.unmet seen).filter (· ∉ new) := by
    simp [unmet, List.filter_filter, not_or, Bool.and_comm]
  rw [hsub]
  have hmem : t ∈ a.unmet seen := by
    simp only [unmet, List.mem_filter, List.mem_flatMap, decide_eq_true_eq]
    exact ⟨⟨s, hs, ht⟩, hseen⟩
  exact List.length_filter_lt_length_iff_exists.2 ⟨t, hmem, by simpa using hnew⟩

/-- Follows the edges that pass `follow` from the `pending` states, `seen` being the states met so far
in the order of meeting.  The answer is all states met, in that order. -/
def explore (a : Automaton) (follow : Symbol → Bool) (d : Discipline) (pending seen : List Nat) :
    Except Fault (List Nat) :=
  match pending with
  | [] => .ok seen
  | id :: rest =>
    match _hs : a.state id with
    | .error fault => .error fault
    | .ok s =>
      let new := newcomers seen (s.targetsAlong follow)
      explore a follow d (d.join new rest) (seen ++ new)
termination_by ((a.unmet seen).length, pending.length)
decreasing_by
  by_cases hnew : newcomers seen (s.targetsAlong follow) = []
  · simp only [hnew, List.append_nil, Discipline.join_nil]
    exact Prod.Lex.right _ (Nat.lt_succ_self _)
  · obtain ⟨t, ht⟩ := List.exists_mem_of_ne_nil _ hnew
    have ht' := mem_newcomers.1 ht
    exact Prod.Lex.left _ _ (unmet_append_length_lt
      (List.mem_of_getElem? (State.lookup_eq_ok.1 _hs))
      (s.targetsAlong_subset_successors follow ht'.1) ht'.2 ht)

@[simp] theorem explore_nil (a : Automaton) (follow : Symbol → Bool) (d : Discipline)
    (seen : List Nat) : a.explore follow d [] seen = .ok seen := by
  rw [explore]

/-- One round of the search. -/
theorem explore_cons (a : Automaton) (follow : Symbol → Bool) (d : Discipline)
    (id : Nat) (rest seen : List Nat) :
    a.explore follow d (id :: rest) seen = (do
      let s ← a.state id
      let new := newcomers seen (s.targetsAlong follow)
      a.explore follow d (d.join new rest) (seen ++ new)) := by
  rw [explore]
  split <;> simp_all [bind, Except.bind]

/-- The states reachable from the start over any edges, in breadth-first order of discovery. -/
def reachable (a : Automaton) : Except Fault (List Nat) :=
  a.explore (fun _ => true) .queue [a.start] [a.start]

/-- The states reachable from `states` over ε edges alone, `states` themselves included.  The largest
member is expanded first. -/
def closure (a : Automaton) (states : StateSet) : Except Fault StateSet :=
  StateSet.ofList <$> a.explore Symbol.isEpsilon .stack states.ids.reverse states.ids

/-- The states entered from `states` by one edge labelled `c`; members are looked up smallest first. -/
def move (a : Automaton) (states : StateSet) (c : Char) : Except Fault StateSet := do
  return .ofList (← states.ids.mapM fun id => a.targets id (.char c)).flatten

/-- The states active before anything is read. -/
def initial (a : Automaton) : Except Fault StateSet :=
  a.closure (.singleton a.start)

end Automaton

end RegexNfa
