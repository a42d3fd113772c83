import RegexNfa.CommandLine.Program
import RegexNfa.Proofs.Compilation.Outcome

/-!
# The common start of the commands

Every command loads its expression and compiles it before it does anything of its own.  A run ends on the way if there
is no text or if the text spells no expression, and the command then has no part in how it ends.  In every other run it
is left with the compilation, so what a command does is said about a compilation only.
-/

namespace RegexNfa

namespace CommandLine

variable {words : List String} {read : Reader} {i : Invocation} {w : World} {e : ExpressionInput}
  {source : ExpressionSource} {logging colored : Bool} {next : Compilation → Plan Outcome}

/-- Whichever reader made out the invocation, it is carried out, in the colour that the world suggests. -/
lemma runIn_program (h : Invocation.ofWords words read = .ok i) (w : World) :
    (program words read).runIn w = (i.carryOut (i.color.colored w.terminals)).runIn w := by
  rw [program, h]
  rfl

lemma runIn_load_text (w : World) (text : String) : (load { text := some text }).runIn w = .ok { text } :=
  rfl

/-- How a run ends whose expression does not compile: with the diagnostic and nothing else. -/
def refusedOutcome (source : ExpressionSource) (colored : Bool) (invalid : InvalidExpression) : Outcome :=
  { exit := 1, stderr := invalid.render (some source.text) source.path colored }

/-- The common start has three ends. -/
lemma runIn_withCompilation : (withCompilation e logging colored next).runIn w =
    match (load e).runIn w with
    | .error err => .failure err.message
    | .ok source =>
      match compileOr source logging colored with
      | .error outcome => outcome
      | .ok c => (next c).runIn w := by
  rw [withCompilation, Plan.runIn_bind]
  cases (load e).runIn w with
  | error err => rfl
  | ok source =>
    simp only
    cases compileOr source logging colored with
    | error outcome => rfl
    | ok c => rfl

lemma runIn_withCompilation_of_compiled {c : Compilation} (hload : (load e).runIn w = .ok source)
    (hcompile : compile source.text logging = .ok c) :
    (withCompilation e logging colored next).runIn w = (next c).runIn w := by
  rw [runIn_withCompilation, hload]
  simp only [compileOr, hcompile]

lemma runIn_withCompilation_of_invalid {invalid : InvalidExpression} (hload : (load e).runIn w = .ok source)
    (hcompile : compile source.text logging = .error (.invalid invalid)) :
    (withCompilation e logging colored next).runIn w = refusedOutcome source colored invalid := by
  rw [runIn_withCompilation, hload]
  simp only [compileOr, hcompile]
  rfl

/-! ## The inputs of `exec` -/

lemma choose_cons (e : ExpressionInput) (first : String) (rest : List String) :
    InputSource.choose e (first :: rest) = .ok (.given (first :: rest)) :=
  rfl

lemma choose_nil_of_stdin (h : e.isStdin = true) : InputSource.choose e [] = .error .stdinConflict := by
  rw [InputSource.choose, h]
  rfl

lemma choose_nil_of_not_stdin (h : e.isStdin = false) : InputSource.choose e [] = .ok .lines := by
  rw [InputSource.choose, h]
  rfl

/-- If every start on the expression ends the run, nothing depends on what was to be done.  The inputs may come from
anywhere, as the expression is not from standard input. -/
lemma runIn_carryOut_of_ended {outcome : Outcome} (he : i.expression.isStdin = false)
    (hstart : ∀ logging next, (withCompilation i.expression logging colored next).runIn w = outcome) :
    (i.carryOut colored).runIn w = outcome := by
  obtain ⟨e, color, action⟩ := i
  cases action with
  | check | dump | graph | trace => exact hstart _ _
  | exec inputs =>
    have hplace : ∃ place, InputSource.choose e inputs = .ok place := by
      cases inputs with
      | nil => exact ⟨_, choose_nil_of_not_stdin he⟩
      | cons first rest => exact ⟨_, choose_cons e first rest⟩
    obtain ⟨place, hplace⟩ := hplace
    change (exec e colored inputs).runIn w = outcome
    rw [exec, hplace]
    exact hstart _ _

end CommandLine

end RegexNfa
