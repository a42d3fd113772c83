import RegexNfa.Arena

/-!
# Moving what was built

Whatever was built in an arena of its own can be moved behind another one: ids and targets go up by the number of
states there, and nothing else changes.  `Arena.followedBy` is the arena that has both.
-/

namespace RegexNfa

/-- The fragment, `n` states further on. -/
def Fragment.shift (n : Nat) (f : Fragment) : Fragment :=
  ⟨n + f.entry, n + f.exit⟩

/-- The state, with its targets, `n` states further on. -/
def State.shift (n : Nat) (s : State) : State :=
  { s with id := n + s.id, edges := s.edges.map fun (symbol, target) => (symbol, n + target) }

/-- The rule applied `n` states further on. -/
def Rule.shift (n : Nat) : Rule → Rule
  | char c entry exit => char c (n + entry) (n + exit)
  | concat source target => concat (n + source) (n + target)
  | union entry exit => union (n + entry) (n + exit)
  | star entry exit => star (n + entry) (n + exit)

namespace Arena

/-- The states of `b`, moved behind those of `a`.  If `a` is logged, the rules of `b` are too, behind those of `a`. -/
def followedBy (a b : Arena) : Arena where
  states := a.states ++ b.states.map (State.shift a.size)
  log? := a.log?.map (· ++ b.log.map (Rule.shift a.size))

@[simp] theorem size_followedBy (a b : Arena) : (a.followedBy b).size = a.size + b.size := by
  simp [followedBy, size]

theorem followedBy_fresh (a : Arena) (logging : Bool) : a.followedBy (fresh logging) = a := by
  cases logging <;> simp [followedBy, fresh, log]

end Arena

end RegexNfa
