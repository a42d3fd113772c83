import RegexNfa.Expression
import RegexNfa.Arena

/-!
# The states of an expression

The states that an expression takes, written down without building anything.  Operands come before their
operator, each as a block of consecutive states; a literal, a union and a repetition add an entry and an exit
of their own at the end of their block, a concatenation adds none.

`layout n onward e` are the states of `e` numbered from `n` on.  The last of them is the exit; it goes on to
the states `onward`, and accepts if there are none.  All others are the `body`, which does not depend on what
comes after.
-/

namespace RegexNfa

/-- An exit that goes on by ε to each of `onward`; with nowhere to go on to it accepts. -/
def State.goingOn (id : Nat) (onward : List Nat) : State where
  id
  accepting := onward.isEmpty
  edges := onward.map (Symbol.epsilon, ·)

namespace Expression

/-- The number of states. -/
def size : Expression → Nat
  | literal _ => 2
  | concat l r => l.size + r.size
  | union l r => l.size + r.size + 2
  | star e => e.size + 2

/-- The entry, if states are numbered from `n` on. -/
def entry (n : Nat) : Expression → Nat
  | literal _ => n
  | concat l _ => l.entry n
  | union l r => n + l.size + r.size
  | star e => n + e.size

/-- The exit, which is the last state. -/
def exit (n : Nat) : Expression → Nat
  | literal _ => n + 1
  | concat l r => r.exit (n + l.size)
  | union l r => n + l.size + r.size + 1
  | star e => n + e.size + 1

def fragment (n : Nat) (e : Expression) : Fragment :=
  ⟨e.entry n, e.exit n⟩

/-- All states but the exit. -/
def body (n : Nat) : Expression → List State
  | literal c => [{ id := n, edges := [(.char c, n + 1)] }]
  | concat l r =>
    l.body n ++ .goingOn (l.exit n) [r.entry (n + l.size)] :: r.body (n + l.size)
  | union l r =>
    l.body n ++ .goingOn (l.exit n) [n + l.size + r.size + 1] ::
      (r.body (n + l.size) ++ [.goingOn (r.exit (n + l.size)) [n + l.size + r.size + 1],
        { id := n + l.size + r.size
          edges := [(.epsilon, l.entry n), (.epsilon, r.entry (n + l.size))] }])
  | star e =>
    e.body n ++ [.goingOn (e.exit n) [e.entry n, n + e.size + 1],
      { id := n + e.size, edges := [(.epsilon, e.entry n), (.epsilon, n + e.size + 1)] }]

/-- All states, the exit going on to `onward`. -/
def layout (n : Nat) (onward : List Nat) (e : Expression) : List State :=
  e.body n ++ [.goingOn (e.exit n) onward]

/-! ## Sizes and ends -/

theorem two_le_size (e : Expression) : 2 ≤ e.size := by
  induction e with
  | literal c => exact Nat.le_refl 2
  | concat l r ihl _ => exact Nat.le_add_right_of_le ihl
  | union l r => exact Nat.le_add_left 2 _
  | star e => exact Nat.le_add_left 2 _

theorem exit_add_one (n : Nat) (e : Expression) : e.exit n + 1 = n + e.size := by
  induction e generalizing n with
  | literal c => rfl
  | concat l r _ ihr => rw [exit, ihr, size, Nat.add_assoc]
  | union l r => simp only [exit, size]; omega
  | star e => simp only [exit, size]; omega

theorem length_body (n : Nat) (e : Expression) : (e.body n).length + 1 = e.size := by
  induction e generalizing n with
  | literal c => rfl
  | concat l r ihl ihr =>
    have hl := ihl n
    have hr := ihr (n + l.size)
    simp only [body, size, List.length_append, List.length_cons]
    omega
  | union l r ihl ihr =>
    have hl := ihl n
    have hr := ihr (n + l.size)
    simp only [body, size, List.length_append, List.length_cons, List.length_nil]
    omega
  | star e ih =>
    have he := ih n
    simp only [body, size, List.length_append, List.length_cons, List.length_nil]
    omega

theorem length_layout (n : Nat) (onward : List Nat) (e : Expression) :
    (e.layout n onward).length = e.size := by
  rw [layout, List.length_append, List.length_singleton, length_body]

theorem length_body_eq (n : Nat) (e : Expression) : n + (e.body n).length = e.exit n := by
  have hbody := e.length_body n
  have hexit := e.exit_add_one n
  omega

theorem le_entry (n : Nat) (e : Expression) : n ≤ e.entry n := by
  induction e generalizing n with
  | literal c => exact Nat.le_refl n
  | concat l r ihl _ => exact ihl n
  | union l r => simp only [entry]; omega
  | star e => simp only [entry]; omega

/-- The entry leaves room for its exit. -/
theorem entry_add_two_le (n : Nat) (e : Expression) : e.entry n + 2 ≤ n + e.size := by
  induction e generalizing n with
  | literal c => exact Nat.le_refl (n + 2)
  | concat l r ihl _ =>
    have hl := ihl n
    simp only [entry, size]
    omega
  | union l r => simp only [entry, size]; omega
  | star e => simp only [entry, size]; omega

/-! ## The shapes of states -/

/-- A state that does not accept, with one edge on a character, to the next state, or one or two ε edges, in
ascending order; all lead to states before `stop`. -/
inductive Inner (stop : Nat) : State → Prop where
  | char {id : Nat} {c : Char} (inside : id + 1 < stop) : Inner stop { id, edges := [(.char c, id + 1)] }
  | one {id p : Nat} (inside : p < stop) : Inner stop { id, edges := [(.epsilon, p)] }
  | two {id p q : Nat} (ascending : p < q) (inside : q < stop) :
      Inner stop { id, edges := [(.epsilon, p), (.epsilon, q)] }

namespace Inner

variable {stop later : Nat} {s : State}

theorem mono (h : Inner stop s) (hle : stop ≤ later) : Inner later s := by
  cases h with
  | char inside => exact .char (Nat.lt_of_lt_of_le inside hle)
  | one inside => exact .one (Nat.lt_of_lt_of_le inside hle)
  | two ascending inside => exact .two ascending (Nat.lt_of_lt_of_le inside hle)

theorem target_lt (h : Inner stop s) {x : Symbol × Nat} (hx : x ∈ s.edges) : x.2 < stop := by
  cases h <;> simp only [List.mem_cons, List.not_mem_nil, or_false] at hx
  · rw [hx]
    assumption
  · rw [hx]
    assumption
  · rcases hx with rfl | rfl
    · exact Nat.lt_trans ‹_› ‹_›
    · assumption

end Inner

/-- Every state but the exit has one of the inner shapes. -/
theorem inner_of_mem_body (n : Nat) (e : Expression) : ∀ s ∈ e.body n, Inner (n + e.size) s := by
  induction e generalizing n with
  | literal c =>
    intro s hs
    rw [List.mem_singleton.1 hs]
    exact .char (Nat.lt_succ_self (n + 1))
  | concat l r ihl ihr =>
    have hright := r.entry_add_two_le (n + l.size)
    intro s hs
    rw [body, List.mem_append, List.mem_cons] at hs
    rw [size]
    rcases hs with hs | rfl | hs
    · exact (ihl n s hs).mono (by omega)
    · exact .one (by omega)
    · exact (ihr (n + l.size) s hs).mono (by omega)
  | union l r ihl ihr =>
    have hleft := l.entry_add_two_le n
    have hright := r.entry_add_two_le (n + l.size)
    have hafter := r.le_entry (n + l.size)
    intro s hs
    simp only [body, List.mem_append, List.mem_cons, List.not_mem_nil, or_false] at hs
    rw [size]
    rcases hs with hs | rfl | hs | rfl | rfl
    · exact (ihl n s hs).mono (by omega)
    · exact .one (by omega)
    · exact (ihr (n + l.size) s hs).mono (by omega)
    · exact .one (by omega)
    · exact .two (by omega) (by omega)
  | star e ih =>
    have hentry := e.entry_add_two_le n
    intro s hs
    simp only [body, List.mem_append, List.mem_cons, List.not_mem_nil, or_false] at hs
    rw [size]
    rcases hs with hs | rfl | rfl
    · exact (ih n s hs).mono (by omega)
    · exact .two (by omega) (by omega)
    · exact .two (by omega) (by omega)

end Expression

end RegexNfa
