import RegexNfa.FirstSeen
import RegexNfa.Symbol
import RegexNfa.Fault

/-!
# States

A state holds its outgoing edges in the order in which they were added; parallel edges are kept.
Everything that shows an order of edges goes by `State.groups`: symbols in the order of first use,
and within a symbol the targets in the order of insertion.
-/

namespace RegexNfa

/-- A state.  Its id is its position in the list of all states. -/
structure State where
  id : Nat
  accepting : Bool := false
  /-- outgoing edges, oldest first -/
  edges : List (Symbol × Nat) := []
deriving DecidableEq, Repr

namespace State

/-- The state with one more edge, after all it has. -/
def addEdge (s : State) (symbol : Symbol) (target : Nat) : State :=
  { s with edges := s.edges ++ [(symbol, target)] }

/-- The state once its fragment has been taken over: it does not accept and goes on by ε to each of
`targets`. -/
def takenOver (targets : List Nat) (s : State) : State :=
  { s with accepting := false, edges := s.edges ++ targets.map (Symbol.epsilon, ·) }

/-- Where the edges labelled `symbol` lead, oldest first. -/
def targets (s : State) (symbol : Symbol) : List Nat :=
  filedUnder symbol s.edges

/-- Targets by symbol, symbols in the order of first use. -/
def groups (s : State) : List (Symbol × List Nat) :=
  grouped s.edges

/-- Where the edges lead whose symbol passes `follow`, in the order of `groups`. -/
def targetsAlong (s : State) (follow : Symbol → Bool) : List Nat :=
  (s.groups.filter (follow ·.1)).flatMap Prod.snd

/-- Where any edge leads, in the order of `groups`. -/
def successors (s : State) : List Nat :=
  s.groups.flatMap Prod.snd

/-- The number of outgoing edges, parallel ones counted. -/
def edgeCount (s : State) : Nat :=
  s.edges.length

@[simp] theorem mem_targets {s : State} {symbol : Symbol} {t : Nat} :
    t ∈ s.targets symbol ↔ (symbol, t) ∈ s.edges :=
  mem_filedUnder

theorem mem_successors {s : State} {t : Nat} :
    t ∈ s.successors ↔ ∃ symbol, (symbol, t) ∈ s.edges :=
  mem_flatMap_grouped

theorem mem_targetsAlong {s : State} {follow : Symbol → Bool} {t : Nat} :
    t ∈ s.targetsAlong follow ↔ ∃ symbol, follow symbol = true ∧ (symbol, t) ∈ s.edges := by
  simp only [targetsAlong, groups, List.mem_flatMap, List.mem_filter, Prod.exists]
  constructor
  · rintro ⟨symbol, ts, ⟨h, hf⟩, ht⟩
    rw [(mem_grouped.1 h).2] at ht
    exact ⟨symbol, hf, mem_filedUnder.1 ht⟩
  · rintro ⟨symbol, hf, h⟩
    exact ⟨symbol, _, ⟨mem_grouped.2 ⟨⟨t, h⟩, rfl⟩, hf⟩, mem_filedUnder.2 h⟩

/-- Following some edges leads nowhere that following all of them does not. -/
theorem targetsAlong_subset_successors (s : State) (follow : Symbol → Bool) :
    s.targetsAlong follow ⊆ s.successors := by
  intro t h
  obtain ⟨symbol, _, h⟩ := mem_targetsAlong.1 h
  exact mem_successors.2 ⟨symbol, h⟩

/-- The state with a given id among `states`. -/
def lookup (states : List State) (id : Nat) : Except Fault State :=
  match states[id]? with
  | some s => .ok s
  | none => .error (.stateOutsideArena states.length id)

theorem lookup_eq_ok {states : List State} {id : Nat} {s : State} :
    lookup states id = .ok s ↔ states[id]? = some s := by
  unfold lookup
  split <;> simp_all

theorem lookup_of_lt {states : List State} {id : Nat} (h : id < states.length) :
    lookup states id = .ok states[id] := by
  simp [lookup_eq_ok, h]

theorem lookup_of_le {states : List State} {id : Nat} (h : states.length ≤ id) :
    lookup states id = .error (.stateOutsideArena states.length id) := by
  simp [lookup, h]

end State

end RegexNfa
