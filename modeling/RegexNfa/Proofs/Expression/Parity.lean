import RegexNfa.Expression.Layout
import Mathlib.Algebra.Ring.Parity
import Mathlib.Tactic.Lemma

/-!
# Entries are even, exits are odd

Every rule adds its states two at a time, an entry and right after it an exit, and concatenation adds none.  So in
a layout that starts at an even number the parity of an id tells which of the two a state is, and with it what
edges the state can have (`wired_of_mem_body`).  An exit has none until its fragment is taken over, which happens
once; then it goes on, or, inside a repetition, back and on.
-/

namespace RegexNfa

/-- A state with the edges that the rules give it.  An entry reads a character into the exit next to it, or forks.
An exit that has been taken over goes on, or back to an entry and on to another exit. -/
inductive State.Wired : State → Prop where
  | reads {id : Nat} {c : Char} (even : Even id) : Wired { id, edges := [(.char c, id + 1)] }
  | forks {id p q : Nat} (even : Even id) (apart : p ≠ q) :
      Wired { id, edges := [(.epsilon, p), (.epsilon, q)] }
  | goesOn {id p : Nat} (odd : Odd id) : Wired { id, edges := [(.epsilon, p)] }
  | goesBack {id p q : Nat} (odd : Odd id) (back : Even p) (on : Odd q) :
      Wired { id, edges := [(.epsilon, p), (.epsilon, q)] }

namespace Expression

variable {n : Nat}

lemma even_size (e : Expression) : Even e.size := by
  induction e with
  | literal c => exact even_two
  | concat l r ihl ihr => exact ihl.add ihr
  | union l r ihl ihr => exact (ihl.add ihr).add even_two
  | star e ih => exact ih.add even_two

lemma even_entry (hn : Even n) (e : Expression) : Even (e.entry n) := by
  induction e with
  | literal c => exact hn
  | concat l r ihl _ => exact ihl
  | union l r => exact (hn.add l.even_size).add r.even_size
  | star e => exact hn.add e.even_size

lemma odd_exit (hn : Even n) (e : Expression) : Odd (e.exit n) := by
  rw [← Nat.not_even_iff_odd, ← Nat.even_add_one, exit_add_one]
  exact hn.add e.even_size

/-- In a layout from an even number on, every state but the exit is wired. -/
theorem wired_of_mem_body (hn : Even n) (e : Expression) : ∀ s ∈ e.body n, s.Wired := by
  induction e generalizing n with
  | literal c =>
    intro s hs
    rw [List.mem_singleton.1 hs]
    exact .reads hn
  | concat l r ihl ihr =>
    have hright : Even (n + l.size) := hn.add l.even_size
    intro s hs
    rw [body, List.mem_append, List.mem_cons] at hs
    rcases hs with hs | rfl | hs
    · exact ihl hn s hs
    · exact .goesOn (l.odd_exit hn)
    · exact ihr hright s hs
  | union l r ihl ihr =>
    have hright : Even (n + l.size) := hn.add l.even_size
    -- the operands stand side by side, so the fork leads to two states
    have hbefore := l.entry_add_two_le n
    have hafter := r.le_entry (n + l.size)
    intro s hs
    simp only [body, List.mem_append, List.mem_cons, List.not_mem_nil, or_false] at hs
    rcases hs with hs | rfl | hs | rfl | rfl
    · exact ihl hn s hs
    · exact .goesOn (l.odd_exit hn)
    · exact ihr hright s hs
    · exact .goesOn (r.odd_exit hright)
    · exact .forks (hright.add r.even_size) (by omega)
  | star e ih =>
    have hentry : Even (n + e.size) := hn.add e.even_size
    have hbefore := e.entry_add_two_le n
    intro s hs
    simp only [body, List.mem_append, List.mem_cons, List.not_mem_nil, or_false] at hs
    rcases hs with hs | rfl | rfl
    · exact ih hn s hs
    · exact .goesBack (e.odd_exit hn) (e.even_entry hn) hentry.add_one
    · exact .forks hentry (by omega)

end Expression

end RegexNfa
