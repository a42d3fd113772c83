import RegexNfa.Automaton.Exploration

/-!
# Searching in any order

`Automaton.explore` takes what its discipline puts first.  A `Round` takes whichever pending state it likes and puts
the newcomers wherever it likes, so `Rounds` are all the orders that the work can be done in.  `round_explore` says that
each step of `explore` is one of them, under either discipline.

A state waits once and is taken once.  So `n` rounds leave `n` of the states met behind them and the others pending,
and a search is over as soon as all that it has met is behind it (`Exhausts`).
-/

namespace RegexNfa

/-- A search under way. -/
structure Search where
  /-- the states met and not taken yet -/
  pending : List Nat
  /-- all states met -/
  seen : List Nat
deriving DecidableEq, Repr

namespace Discipline

theorem join_perm (d : Discipline) (newcomers rest : List Nat) : (d.join newcomers rest).Perm (newcomers ++ rest) := by
  cases d with
  | queue => exact List.perm_append_comm
  | stack => exact (List.reverse_perm newcomers).append_right rest

end Discipline

namespace Automaton

/-- One state that is pending is taken.  Those of its targets that had not been met, each once, join what is pending and
what has been met. -/
inductive Round (a : Automaton) (follow : Symbol → Bool) (before after : Search) : Prop where
  | take {id : Nat} {s : State} {rest new : List Nat} (found : a.state id = .ok s)
      (taken : before.pending.Perm (id :: rest)) (nodup : new.Nodup)
      (mem_new : ∀ q, q ∈ new ↔ q ∈ s.targetsAlong follow ∧ q ∉ before.seen)
      (pending : after.pending.Perm (new ++ rest)) (seen : after.seen.Perm (before.seen ++ new))

/-- A number of rounds, one after the other. -/
inductive Rounds (a : Automaton) (follow : Symbol → Bool) : Nat → Search → Search → Prop where
  | none (w : Search) : Rounds a follow 0 w w
  | more {n : Nat} {before between after : Search} (first : Round a follow before between)
      (rest : Rounds a follow n between after) : Rounds a follow (n + 1) before after

/-- From `begun` the search ends, and with `found`, whatever is taken next. -/
structure Exhausts (a : Automaton) (follow : Symbol → Bool) (begun : Search) (found : StateSet) : Prop where
  /-- what has been taken and what is pending are different members of `found` -/
  bounded : ∀ n w, a.Rounds follow n begun w → n + w.pending.length ≤ found.ids.length
  /-- what is pending can be taken -/
  proceeds : ∀ n w, a.Rounds follow n begun w → w.pending ≠ [] → ∃ w', a.Round follow w w'
  /-- when nothing is pending, each member of `found` has been taken once -/
  finds : ∀ n w, a.Rounds follow n begun w → w.pending = [] →
    n = found.ids.length ∧ StateSet.ofList w.seen = found

theorem round_explore {a : Automaton} {follow : Symbol → Bool} {id : Nat} {s : State} (d : Discipline)
    (rest seen : List Nat) (hs : a.state id = .ok s) :
    a.Round follow ⟨id :: rest, seen⟩
      ⟨d.join (newcomers seen (s.targetsAlong follow)) rest, seen ++ newcomers seen (s.targetsAlong follow)⟩ :=
  .take hs (.refl _) (nodup_newcomers _ _) (fun _ => mem_newcomers) (d.join_perm _ rest) (.refl _)

end Automaton

end RegexNfa
