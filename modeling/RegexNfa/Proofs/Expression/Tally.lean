import RegexNfa.Expression.Grammar
import RegexNfa.Expression.Layout
import Mathlib.Tactic.Lemma

/-!
# What an expression is made of

Literals, unions and repetitions are counted twice: in the text that spells an expression, where they are its
tokens (`Derives.tally`), and in its layout, where each literal and each operator has a fixed number of states
and edges (`size_eq`, `length_edges_body`).  Brackets and concatenations have no state of their own.
-/

namespace RegexNfa

/-! ## Counting in an expression -/

namespace Expression

/-- The literals from left to right. -/
def literals : Expression → List Char
  | literal c => [c]
  | concat l r => l.literals ++ r.literals
  | union l r => l.literals ++ r.literals
  | star e => e.literals

/-- The number of unions. -/
def unions : Expression → Nat
  | literal _ => 0
  | concat l r => l.unions + r.unions
  | union l r => l.unions + r.unions + 1
  | star e => e.unions

/-- The number of repetitions. -/
def stars : Expression → Nat
  | literal _ => 0
  | concat l r => l.stars + r.stars
  | union l r => l.stars + r.stars
  | star e => e.stars + 1

lemma literals_ne_nil (e : Expression) : e.literals ≠ [] := by
  induction e with
  | literal c => exact List.cons_ne_nil c []
  | concat l r ihl _ => exact List.append_ne_nil_of_left_ne_nil ihl _
  | union l r ihl _ => exact List.append_ne_nil_of_left_ne_nil ihl _
  | star e ih => exact ih

end Expression

/-! ## Counting in a text -/

/-- The characters of a kind, in order. -/
def TokenKind.among (kind : TokenKind) (s : List Char) : List Char :=
  s.filter (TokenKind.ofChar · = kind)

/-- The number of tokens of a kind. -/
def TokenStream.number (s : TokenStream) (kind : TokenKind) : Nat :=
  (s.tokens.filter (·.kind = kind)).length

namespace TokenKind

variable {kind : TokenKind} {s u : List Char} {c : Char}

@[simp] lemma among_nil (kind : TokenKind) : kind.among [] = [] :=
  rfl

@[simp] lemma among_append : kind.among (s ++ u) = kind.among s ++ kind.among u :=
  List.filter_append ..

@[simp] lemma among_cons : kind.among (c :: s) = (if ofChar c = kind then [c] else []) ++ kind.among s := by
  rw [among, List.filter_cons]
  by_cases h : ofChar c = kind
  · simp [h, among]
  · simp [h, among]

lemma mem_among : c ∈ kind.among s ↔ c ∈ s ∧ ofChar c = kind := by
  simp [among]

end TokenKind

lemma TokenStream.number_ofText (s : List Char) (kind : TokenKind) :
    (TokenStream.ofText s).number kind = (kind.among s).length := by
  have hscan : ∀ offset, ((Token.scanFrom offset s).filter (·.kind = kind)).length = (kind.among s).length := by
    induction s with
    | nil => exact fun _ => rfl
    | cons c s ih =>
      intro offset
      rw [TokenKind.among_cons, List.length_append, ← ih (offset + c.utf8Size), Token.scanFrom, List.filter_cons]
      by_cases h : TokenKind.ofChar c = kind
      · simp [h, Nat.add_comm]
      · simp [h]
  exact hscan 0

/-- A phrase has the literals of its expression, in order, and a token for each union and each repetition. -/
theorem Derives.tally {phrase : Phrase} {start : Nat} {s : List Char} {t : ParseTree}
    (h : Derives phrase start s t) :
    TokenKind.literal.among s = t.expression.literals ∧
      (TokenKind.union.among s).length = t.expression.unions ∧
      (TokenKind.star.among s).length = t.expression.stars := by
  induction h with
  | literal plain =>
    simp [plain, ParseTree.expression, Expression.literals, Expression.unions, Expression.stars]
  | group _ ih =>
    -- neither bracket is counted
    have hopen : TokenKind.ofChar '(' = .parenOpen := rfl
    have hclose : TokenKind.ofChar ')' = .parenClose := rfl
    simpa [hopen, hclose] using ih
  | atom _ ih => exact ih
  | star _ ih =>
    have hstar : TokenKind.ofChar '*' = .star := rfl
    simp [hstar, ih, ParseTree.expression, Expression.literals, Expression.unions, Expression.stars]
  | repetition _ ih => exact ih
  | concat _ _ ihl ihr =>
    simp [ihl, ihr, ParseTree.expression, Expression.literals, Expression.unions, Expression.stars]
  | sequence _ ih => exact ih
  | union _ _ ihl ihr =>
    have hunion : TokenKind.ofChar '|' = .union := rfl
    simp [hunion, ihl, ihr, ParseTree.expression, Expression.literals, Expression.unions, Expression.stars,
      Nat.add_assoc]

/-! ## Counting in a layout -/

@[simp] lemma State.length_edges_goingOn (id : Nat) (onward : List Nat) :
    (State.goingOn id onward).edges.length = onward.length :=
  List.length_map _

@[simp] lemma State.characters_goingOn (id : Nat) (onward : List Nat) :
    (State.goingOn id onward).edges.filterMap (·.1.char?) = [] := by
  simp [State.goingOn, Symbol.char?]

namespace Expression

/-- Two states for each literal and each operator but concatenation. -/
theorem size_eq (e : Expression) : e.size = 2 * (e.literals.length + e.unions + e.stars) := by
  induction e with
  | literal c => rfl
  | concat l r ihl ihr =>
    simp only [size, literals, unions, stars, List.length_append, ihl, ihr]
    omega
  | union l r ihl ihr =>
    simp only [size, literals, unions, stars, List.length_append, ihl, ihr]
    omega
  | star e ih =>
    simp only [size, literals, unions, stars, ih]
    omega

/-- Every literal has an edge of its own and one over which its exit goes on, but for the exit of the whole block,
which is not in the body.  A union adds three edges and a repetition four. -/
lemma length_edges_body (n : Nat) (e : Expression) :
    ((e.body n).flatMap State.edges).length + 1 = 2 * e.literals.length + 3 * e.unions + 4 * e.stars := by
  induction e generalizing n with
  | literal c => rfl
  | concat l r ihl ihr =>
    have hl := ihl n
    have hr := ihr (n + l.size)
    simp only [body, literals, unions, stars, List.flatMap_append, List.flatMap_cons, List.length_append,
      State.length_edges_goingOn, List.length_singleton]
    omega
  | union l r ihl ihr =>
    have hl := ihl n
    have hr := ihr (n + l.size)
    simp only [body, literals, unions, stars, List.flatMap_append, List.flatMap_cons, List.flatMap_nil,
      List.length_append, State.length_edges_goingOn, List.length_cons, List.length_nil]
    omega
  | star e ih =>
    have he := ih n
    simp only [body, literals, unions, stars, List.flatMap_append, List.flatMap_cons, List.flatMap_nil,
      List.length_append, State.length_edges_goingOn, List.length_cons, List.length_nil]
    omega

/-- A block that goes on to nothing has no further edges at its exit. -/
theorem length_edges_layout (n : Nat) (e : Expression) :
    ((e.layout n []).flatMap State.edges).length + 1 = 2 * e.literals.length + 3 * e.unions + 4 * e.stars := by
  rw [layout, List.flatMap_append, List.length_append]
  exact length_edges_body n e

lemma characters_body (n : Nat) (e : Expression) :
    (e.body n).flatMap (fun s => s.edges.filterMap (·.1.char?)) = e.literals := by
  have hepsilon : Symbol.epsilon.char? = none := rfl
  induction e generalizing n with
  | literal c => rfl
  | concat l r ihl ihr => simp [body, literals, ihl, ihr]
  | union l r ihl ihr => simp [body, literals, ihl, ihr, hepsilon]
  | star e ih => simp [body, literals, ih, hepsilon]

/-- The characters on the edges are the literals, in the same order. -/
theorem characters_layout (n : Nat) (onward : List Nat) (e : Expression) :
    (e.layout n onward).flatMap (fun s => s.edges.filterMap (·.1.char?)) = e.literals := by
  simp [layout, characters_body]

/-- No two edges out of a state lead to the same state. -/
theorem nodup_targets_layout (n : Nat) (e : Expression) :
    ∀ s ∈ e.layout n [], (s.edges.map Prod.snd).Nodup := by
  intro s hs
  rcases List.mem_append.1 hs with hs | hs
  · cases e.inner_of_mem_body n s hs with
    | char => exact List.pairwise_singleton _ _
    | one => exact List.pairwise_singleton _ _
    | two ascending => simp [Nat.ne_of_lt ascending]
  · rw [List.mem_singleton.1 hs]
    exact List.nodup_nil

end Expression

end RegexNfa
