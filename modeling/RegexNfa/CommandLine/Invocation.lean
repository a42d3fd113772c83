import RegexNfa.CommandLine.Arguments

/-!
# Invocations

What is to be done, and to which expression.  An expression comes from the first positional or from a
file.  With a file the first positional has been delivered as an expression all the same: `exec` puts it
back in front of its inputs, and `trace` makes it its input if there is no other.
-/

namespace RegexNfa

namespace CommandLine

/-- Where the expression is to come from. -/
structure ExpressionInput where
  text : Option String := none
  file : Option String := none
deriving DecidableEq, Repr

/-- The expression is to be read from standard input. -/
def ExpressionInput.isStdin (e : ExpressionInput) : Bool :=
  e.text.isNone && e.file = some "-"

inductive Action where
  | check
  | dump (events : Bool)
  | graph (compact : Bool)
  | exec (inputs : List String)
  | trace (verbose : Nat) (input : Option String) (json : Bool)
deriving DecidableEq, Repr

structure Invocation where
  expression : ExpressionInput
  color : ColorChoice
  action : Action
deriving DecidableEq, Repr

/-- Which of the outputs go to a terminal. -/
structure Terminals where
  stdout : Bool := false
  stderr : Bool := false
deriving DecidableEq, Repr

/-- Output is coloured when that was asked for.  Without being asked it is when all of it goes to terminals: a
report that is piped on has no colour, though its diagnostics still reach one. -/
def ColorChoice.colored (choice : ColorChoice) (terminals : Terminals := {}) : Bool :=
  match choice with
  | always => true
  | never => false
  | auto => terminals.stdout && terminals.stderr

namespace Invocation

/-- With a file, the first positional of `exec` is an input and not the expression, so it goes back in front. -/
def shiftToInputs (fromFile : Bool) (text : Option String) (inputs : List String) :
    Option String × List String :=
  match fromFile, text with
  | true, some first => (none, inputs.insertIdx 0 first)
  | _, text => (text, inputs)

/-- With a file, a single positional of `trace` is the input and not the expression. -/
def shiftToInput (fromFile : Bool) (text input : Option String) : Option String × Option String :=
  if fromFile && text.isSome && input.isNone then (none, text) else (text, input)

/-- What a command is to do with what was given to it. -/
def ofArguments (command : CommandName) (given : Arguments) : Invocation :=
  let color := given.color.getD .auto
  let expression : ExpressionInput := { text := given.expr, file := given.file }
  match command with
  | .check => { expression, color, action := .check }
  | .dump => { expression, color, action := .dump (given.flags.contains .events) }
  | .graph => { expression, color, action := .graph (given.flags.contains .compact) }
  | .exec =>
    let (text, inputs) := shiftToInputs given.file.isSome given.expr given.inputs
    { expression := { expression with text }, color, action := .exec inputs }
  | .trace =>
    let (text, input) := shiftToInput given.file.isSome given.expr given.inputs.head?
    { expression := { expression with text }, color,
      action := .trace given.verbose input (given.flags.contains .json) }

/-- The invocation that a command line asks for. -/
def ofWords (words : List String) (read : Reader := readWords) : Except Refusal Invocation := do
  let (command, given) ← read words
  return ofArguments command given

theorem ofWords_eq_ok {words : List String} {read : Reader} {i : Invocation} :
    ofWords words read = .ok i ↔ ∃ command given, read words = .ok (command, given) ∧ ofArguments command given = i := by
  constructor
  · intro h
    rw [ofWords] at h
    cases hread : read words with
    | error refusal =>
      rw [hread] at h
      exact absurd h (by simp [bind, Except.bind])
    | ok made =>
      rw [hread] at h
      exact ⟨made.1, made.2, rfl, Except.ok.inj h⟩
  · rintro ⟨command, given, hread, rfl⟩
    rw [ofWords, hread]
    rfl

end Invocation

end CommandLine

end RegexNfa
