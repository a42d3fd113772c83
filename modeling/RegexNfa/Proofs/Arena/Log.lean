import RegexNfa.Arena.Assembly
import Mathlib.Data.List.Forall2

/-!
# Logs

What assembling does at a token is settled by the token and the stack: it refuses, or it runs one operation on operands
from the top (`assembleFrom_cons`).  An operation neither reads the log nor leaves anything in it but one rule
(`Operation.run_unlogged`, `Operation.log?_run`).  So assembling comes to the same with and without a log
(`assembleFrom_unlogged`).

A rule does not name its operands, and of the states it names none are needed to apply it again: the operands are on the
stack, and new states are numbered by the size of the arena.  `replay` does so for all the rules of a log, and brings back
what was assembled while the log was written (`exists_log`).
-/

namespace RegexNfa

/-! ## Rules and the tokens that ask for them -/

namespace Rule

/-- The kind of the tokens that ask for the rule. -/
def kind : Rule → TokenKind
  | char _ _ _ => .literal
  | concat _ _ => .concat
  | union _ _ => .union
  | star _ _ => .star

/-- The character of a character rule. -/
def literal? : Rule → Option Char
  | char c _ _ => some c
  | _ => none

end Rule

/-- The token asks for the rule, with the character that it stands for if it is a literal. -/
def Token.AsksFor (source : List Char) (t : Token) (rule : Rule) : Prop :=
  t.kind = rule.kind ∧ t.literal? source = .ok rule.literal?

namespace Arena

/-! ## Operations -/

/-- A rule with its operands. -/
inductive Operation where
  | char (c : Char)
  | concat (left right : Fragment)
  | union (left right : Fragment)
  | star (inner : Fragment)

/-- The arena without its log. -/
def unlogged (a : Arena) : Arena :=
  { a with log? := none }

namespace Operation

def run : Operation → Arena → Except Fault (Fragment × Arena)
  | char c, a => .ok (a.char c)
  | concat left right, a => a.concat left right
  | union left right, a => a.union left right
  | star inner, a => a.star inner

/-- The rule that is logged when the operation is run on an arena. -/
def rule : Operation → Arena → Rule
  | char c, a => .char c a.size (a.size + 1)
  | concat left right, _ => .concat left.exit right.entry
  | union _ _, a => .union a.size (a.size + 1)
  | star _, a => .star a.size (a.size + 1)

/-- The operands, as they lie on a stack. -/
def operands : Operation → List Fragment
  | char _ => []
  | concat left right => [right, left]
  | union left right => [right, left]
  | star inner => [inner]

/-- The operation on other operands. -/
def rename (r : Fragment → Fragment) : Operation → Operation
  | char c => char c
  | concat left right => concat (r left) (r right)
  | union left right => union (r left) (r right)
  | star inner => star (r inner)

lemma rename_id (operation : Operation) : operation.rename id = operation := by
  cases operation <;> rfl

end Operation

variable {a b : Arena} {f : Fragment} {source : List Char} {whole : Span} {stack : List Fragment} {ts : List Token}

/-! ### Without a log -/

@[simp] lemma size_unlogged (a : Arena) : a.unlogged.size = a.size :=
  rfl

lemma addPair_unlogged (a : Arena) (edges : List (Symbol × Nat)) :
    a.unlogged.addPair edges = (a.addPair edges).unlogged :=
  rfl

lemma modify_unlogged (a : Arena) (id : Nat) (change : State → State) :
    a.unlogged.modify id change = (a.modify id change).map unlogged := by
  unfold modify
  by_cases hid : id < a.size
  · rw [if_pos hid, size_unlogged, if_pos hid]
    rfl
  · rw [if_neg hid, size_unlogged, if_neg hid]
    rfl

lemma absorb_unlogged (a : Arena) (exit : Nat) (targets : List Nat) :
    a.unlogged.absorb exit targets = (a.absorb exit targets).map unlogged :=
  modify_unlogged a exit (State.takenOver targets)

/-- Freezing does not look at the log. -/
lemma finish_unlogged (a : Arena) (whole : Fragment) : a.unlogged.finish whole = a.finish whole := by
  unfold finish setAccepting
  rw [modify_unlogged]
  cases a.modify whole.exit ({ · with accepting := true }) with
  | error fault => rfl
  | ok b => rfl

lemma bind_unlogged {made : Except Fault Arena} {next : Arena → Except Fault (Fragment × Arena)}
    (h : ∀ c, next c.unlogged = (next c).map (Prod.map id unlogged)) :
    (made.map unlogged >>= next) = (made >>= next).map (Prod.map id unlogged) := by
  cases made with
  | error fault => rfl
  | ok c => exact h c

/-- No operation looks at the log. -/
lemma Operation.run_unlogged (operation : Operation) (a : Arena) :
    operation.run a.unlogged = (operation.run a).map (Prod.map id unlogged) := by
  cases operation with
  | char c => rfl
  | concat left right =>
    simp only [run, Arena.concat, absorb_unlogged]
    exact bind_unlogged fun c => rfl
  | union left right =>
    simp only [run, Arena.union, addPair_unlogged, size_unlogged, absorb_unlogged]
    apply bind_unlogged
    intro c
    rw [absorb_unlogged]
    exact bind_unlogged fun d => rfl
  | star inner =>
    simp only [run, Arena.star, addPair_unlogged, size_unlogged, absorb_unlogged]
    exact bind_unlogged fun c => rfl

/-! ### With a log -/

@[simp] lemma log?_record (a : Arena) (rule : Rule) : (a.record rule).log? = a.log?.map (· ++ [rule]) :=
  rfl

@[simp] lemma log?_addPair (a : Arena) (edges : List (Symbol × Nat)) : (a.addPair edges).log? = a.log? :=
  rfl

lemma log?_absorb {exit : Nat} {targets : List Nat} (h : a.absorb exit targets = .ok b) : b.log? = a.log? := by
  obtain ⟨_, rfl⟩ := modify_eq_ok.1 h
  rfl

/-- An operation logs its rule, and nothing else. -/
lemma Operation.log?_run {operation : Operation} (h : operation.run a = .ok (f, b)) :
    b.log? = a.log?.map (· ++ [operation.rule a]) := by
  cases operation with
  | char c =>
    obtain ⟨_, rfl⟩ := Prod.mk.inj (Except.ok.inj h)
    simp only [log?_record, log?_addPair, rule]
  | concat left right =>
    obtain ⟨_, c, hc, rfl⟩ := concat_eq_ok.1 h
    simp only [log?_record, log?_absorb hc, rule]
  | union left right =>
    obtain ⟨_, c, d, hc, hd, rfl⟩ := union_eq_ok.1 h
    simp only [log?_record, log?_absorb hd, log?_absorb hc, log?_addPair, rule]
  | star inner =>
    obtain ⟨_, c, hc, rfl⟩ := star_eq_ok.1 h
    simp only [log?_record, log?_absorb hc, log?_addPair, rule]

/-! ## Applying a log again -/

/-- The operation of a rule, its operands from the top of the stack, the right one first.  The states that the rule
names are not looked at. -/
def operation? : Rule → List Fragment → Option (Operation × List Fragment)
  | .char c _ _, stack => some (.char c, stack)
  | .concat _ _, right :: left :: stack => some (.concat left right, stack)
  | .union _ _, right :: left :: stack => some (.union left right, stack)
  | .star _ _, inner :: stack => some (.star inner, stack)
  | _, _ => none

/-- Applies a rule again and puts the fragment on the stack. -/
def redo (s : List Fragment × Arena) (rule : Rule) : Option (List Fragment × Arena) := do
  let (operation, stack) ← operation? rule s.1
  let (f, a) ← (operation.run s.2).toOption
  return (f :: stack, a)

/-- The stack and the arena after applying the rules one by one, from an empty stack and an arena without states that
is logged. -/
def replay (rules : List Rule) : Option (List Fragment × Arena) :=
  rules.foldlM redo ([], fresh true)

/-! ## Assembling, token by token -/

/-- Whatever the arena, on stacks of one height a token is refused alike, or asks for one operation on what lies on
top. -/
lemma assembleFrom_cons_rename (source : List Char) (stack : List Fragment) (t : Token) :
    (∃ failure, ∀ r whole (a : Arena) ts,
      assembleFrom source whole a (stack.map r) (t :: ts) = (.error failure, a)) ∨
    ∃ (operation : Operation) (below : List Fragment), stack = operation.operands ++ below ∧
      (∀ a, t.AsksFor source (operation.rule a)) ∧
      ∀ r whole a ts, assembleFrom source whole a (stack.map r) (t :: ts) =
        a.proceed ((operation.rename r).run a) fun f b => assembleFrom source whole b (f :: below.map r) ts := by
  obtain ⟨kind, span⟩ := t
  match kind, stack with
  | .literal, stack =>
    cases hread : Token.literal? source ⟨.literal, span⟩ with
    | error fault => exact .inl ⟨.fault fault, fun r whole a ts => by simp [assembleFrom, hread]⟩
    | ok c? =>
      cases c? with
      | none => exact .inl ⟨.fault .emptyLiteral, fun r whole a ts => by simp [assembleFrom, hread]⟩
      | some c =>
        refine .inr ⟨.char c, stack, rfl, fun a => ⟨rfl, hread⟩, fun r whole a ts => ?_⟩
        simp only [assembleFrom, hread]
        rfl
  | .star, inner :: below =>
    exact .inr ⟨.star inner, below, rfl, fun a => ⟨rfl, rfl⟩, fun r whole a ts => rfl⟩
  | .concat, right :: left :: below =>
    exact .inr ⟨.concat left right, below, rfl, fun a => ⟨rfl, rfl⟩, fun r whole a ts => rfl⟩
  | .union, right :: left :: below =>
    exact .inr ⟨.union left right, below, rfl, fun a => ⟨rfl, rfl⟩, fun r whole a ts => rfl⟩
  | .star, [] | .concat, [] | .concat, [_] | .union, [] | .union, [_] | .parenOpen, _ | .parenClose, _ =>
    exact .inl ⟨_, fun r whole a ts => rfl⟩

/-- An operation can be told from the rule that it logs and the stack that its operands lie on. -/
lemma operation?_rule (operation : Operation) (below : List Fragment) (a : Arena) :
    operation? (operation.rule a) (operation.operands ++ below) = some (operation, below) := by
  cases operation <;> rfl

/-- Whatever the arena, a token is refused, or asks for an operation that can be told from the rule that it logs. -/
lemma assembleFrom_cons (source : List Char) (stack : List Fragment) (t : Token) :
    (∃ failure, ∀ whole (a : Arena) ts, assembleFrom source whole a stack (t :: ts) = (.error failure, a)) ∨
    ∃ operation below,
      (∀ a, t.AsksFor source (operation.rule a) ∧ operation? (operation.rule a) stack = some (operation, below)) ∧
      ∀ whole a ts, assembleFrom source whole a stack (t :: ts) =
        a.proceed (operation.run a) fun f b => assembleFrom source whole b (f :: below) ts := by
  obtain ⟨failure, hrefuse⟩ | ⟨operation, below, rfl, hasks, hproceed⟩ := assembleFrom_cons_rename source stack t
  · refine .inl ⟨failure, fun whole a ts => ?_⟩
    have hsame := hrefuse id whole a ts
    rw [List.map_id] at hsame
    exact hsame
  · refine .inr ⟨operation, below, fun a => ⟨hasks a, operation?_rule operation below a⟩, fun whole a ts => ?_⟩
    have hsame := hproceed id whole a ts
    rw [List.map_id, List.map_id, operation.rename_id] at hsame
    exact hsame

/-- Assembling comes to the same without a log. -/
theorem assembleFrom_unlogged (source : List Char) (whole : Span) (a : Arena) (stack : List Fragment)
    (ts : List Token) :
    assembleFrom source whole a.unlogged stack ts = (assembleFrom source whole a stack ts).map id unlogged := by
  induction ts generalizing a stack with
  | nil =>
    match stack with
    | [] | [_] | _ :: _ :: _ => rfl
  | cons t ts ih =>
    obtain ⟨failure, hrefuse⟩ | ⟨operation, below, _, hproceed⟩ := assembleFrom_cons source stack t
    · rw [hrefuse, hrefuse]
      rfl
    · rw [hproceed, hproceed, operation.run_unlogged]
      cases operation.run a with
      | error fault => rfl
      | ok made => exact ih made.2 (made.1 :: below)

/-- What was assembled has one more rule in its log for each token, and applying these rules again leads to it. -/
theorem exists_log (h : assembleFrom source whole a stack ts = (.ok f, b)) :
    ∃ rules, List.Forall₂ (Token.AsksFor source) ts rules ∧ b.log? = a.log?.map (· ++ rules) ∧
      rules.foldlM redo (stack, a) = some ([f], b) := by
  induction ts generalizing a stack with
  | nil =>
    match stack, h with
    | [g], h =>
      obtain ⟨hends, rfl⟩ := Prod.mk.inj h
      obtain rfl := Except.ok.inj hends
      exact ⟨[], .nil, by simp, rfl⟩
  | cons t ts ih =>
    obtain ⟨failure, hrefuse⟩ | ⟨operation, below, hasks, hproceed⟩ := assembleFrom_cons source stack t
    · rw [hrefuse] at h
      exact absurd h (by simp)
    · rw [hproceed] at h
      cases hrun : operation.run a with
      | error fault =>
        rw [hrun] at h
        exact absurd h (by simp [proceed])
      | ok made =>
        rw [hrun] at h
        obtain ⟨rules, hrules, hlog, hreplay⟩ := ih h
        obtain ⟨hrule, hoperation⟩ := hasks a
        have hredo : redo (stack, a) (operation.rule a) = some (made.1 :: below, made.2) := by
          simp [redo, hoperation, hrun, Except.toOption]
        refine ⟨operation.rule a :: rules, .cons hrule hrules, ?_, ?_⟩
        · rw [hlog, Operation.log?_run hrun, Option.map_map]
          congr 1
          funext earlier
          simp
        · rw [List.foldlM_cons, hredo]
          exact hreplay

end Arena

end RegexNfa
