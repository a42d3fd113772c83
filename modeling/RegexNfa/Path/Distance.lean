import RegexNfa.Proofs.Path.Leading
import Mathlib.Data.Nat.Find

/-!
# Distances

A walk is a path with its edges counted and its text forgotten; the distance between two states is the number of
edges of a shortest walk.  `BreadthFirst` says which list of states is their enumeration breadth first: by distance,
and where the distances are the same by the states that they are entered from.
-/

namespace RegexNfa

/-- `n` edges lead from `p` to `q`. -/
inductive Walk (states : List State) (p : Nat) : Nat → Nat → Prop where
  | here : Walk states p 0 p
  | step {n q r : Nat} {symbol : Symbol} (walk : Walk states p n q) (edge : Edge states q symbol r) :
      Walk states p (n + 1) r

/-- Edges lead from `p` to `q`, `n` of them and never fewer. -/
def Distance (states : List State) (p q n : Nat) : Prop :=
  Walk states p n q ∧ ∀ m, Walk states p m q → n ≤ m

/-- Of the states in `order` that have an edge to `q`, state `p` is listed first. -/
structure FirstPredecessor (states : List State) (order : List Nat) (p q : Nat) : Prop where
  listed : p ∈ order
  edge : ∃ symbol, Edge states p symbol q
  first : ∀ m ∈ order, ∀ symbol, Edge states m symbol q → order.idxOf p ≤ order.idxOf m

/-- `order` lists breadth first what `start` leads to. -/
structure BreadthFirst (states : List State) (start : Nat) (order : List Nat) : Prop where
  nodup : order.Nodup
  head : order.head? = some start
  complete : ∀ q, q ∈ order ↔ Leads states start q
  /-- every listed state has a distance from the start -/
  distant : ∀ q ∈ order, ∃ n, Distance states start q n
  /-- nearer states come first -/
  nearest : order.Pairwise fun p q => ∀ m n, Distance states start p m → Distance states start q n → m ≤ n
  /-- every listed state but the start is entered from a listed state, and so from a first one -/
  entered : ∀ q ∈ order, q ≠ start → ∃ p, FirstPredecessor states order p q
  /-- at one distance the state that is entered from an earlier state comes first -/
  predecessors : ∀ n q r p p', Distance states start q n → Distance states start r n →
    FirstPredecessor states order p q → FirstPredecessor states order p' r →
    order.idxOf p < order.idxOf p' → order.idxOf q < order.idxOf r
  /-- states that are first entered from one state come as its edges have them, by symbol and by target -/
  siblings : ∀ n q r p s, Distance states start q n → Distance states start r n →
    FirstPredecessor states order p q → FirstPredecessor states order p r → states[p]? = some s →
    s.successors.idxOf q < s.successors.idxOf r → order.idxOf q < order.idxOf r

variable {states : List State} {p q : Nat}

lemma Walk.leads {n : Nat} (walk : Walk states p n q) : Leads states p q := by
  induction walk with
  | here => exact .refl states p
  | step _ edge ih => exact ih.trans (.ofEdge edge)

/-- A walk may also be made longer at its start. -/
lemma Walk.cons {n r : Nat} {symbol : Symbol} (edge : Edge states p symbol q) (walk : Walk states q n r) :
    Walk states p (n + 1) r := by
  induction walk with
  | here => exact .step .here edge
  | step _ last ih => exact .step ih last

lemma leads_iff_exists_walk : Leads states p q ↔ ∃ n, Walk states p n q := by
  constructor
  · intro h
    obtain ⟨w, path⟩ := h
    induction path with
    | here p => exact ⟨0, .here⟩
    | epsilon edge _ ih =>
      obtain ⟨n, walk⟩ := ih
      exact ⟨n + 1, .cons edge walk⟩
    | char edge _ ih =>
      obtain ⟨n, walk⟩ := ih
      exact ⟨n + 1, .cons edge walk⟩
  · intro h
    obtain ⟨n, walk⟩ := h
    exact walk.leads

/-- What a state leads to is at some distance. -/
lemma Leads.exists_distance (leads : Leads states p q) : ∃ n, Distance states p q n := by
  classical
  have hwalk := leads_iff_exists_walk.1 leads
  exact ⟨Nat.find hwalk, Nat.find_spec hwalk, fun m walk => Nat.find_min' hwalk walk⟩

end RegexNfa
