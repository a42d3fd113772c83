/-!
# Faults

A fault is a broken precondition: a state id that names no state, an arena that is not an automaton,
a span that runs backwards.  Operations that can meet one return it as a value, so that a caller's
promise not to break the precondition is a theorem and not a hope.
-/

namespace RegexNfa

/-- The preconditions that an operation of this library may find broken. -/
inductive Fault where
  /-- some state's id is not its position in the arena -/
  | idsNotPositions
  /-- the start or the accepting state is not in the arena -/
  | endpointsOutsideArena
  /-- the accepting states are not exactly the designated one -/
  | acceptNotSole
  /-- an id names none of the `count` states -/
  | stateOutsideArena (count id : Nat)
  /-- a literal token whose span holds no character -/
  | emptyLiteral
  /-- a span that ends before it starts -/
  | backwardSpan
  /-- a span that leaves the text or cuts a character -/
  | unalignedSpan (start stop : Nat)
deriving DecidableEq, Repr

namespace Fault

def message : Fault → String
  | idsNotPositions => "state ids must match arena indices"
  | endpointsOutsideArena => "start and accept must name states in the arena"
  | acceptNotSole => "exactly one accepting state expected"
  | stateOutsideArena count id =>
    s!"index out of bounds: the len is {count} but the index is {id}"
  | emptyLiteral => "lexer yields exactly one character per literal token"
  | backwardSpan => "assertion failed: start.raw <= end.raw"
  | unalignedSpan start stop =>
    s!"byte range {start}..{stop} does not lie on character boundaries"

/-- Two steps succeed together when each does. -/
theorem bind_eq_ok {α β : Type} {x : Except Fault α} {f : α → Except Fault β} {b : β} :
    (x >>= f) = .ok b ↔ ∃ a, x = .ok a ∧ f a = .ok b := by
  cases x with
  | error fault => simp [bind, Except.bind]
  | ok a => simp [bind, Except.bind]

end Fault

end RegexNfa
