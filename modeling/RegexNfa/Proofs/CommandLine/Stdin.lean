import RegexNfa.Proofs.CommandLine.Commands
import RegexNfa.Proofs.Compilation.Safety

/-!
# When standard input is read

A plan that never asks for standard input ends the same way whatever is there (`Plan.runIn_eq_of_not_asks`), so a
statement about two runs comes down to one about the plan.  Whether a plan asks is settled by the files alone up to
the moment it does, and is followed through the program here: planning the inputs asks for nothing, loading asks if
the expression is to come from standard input, and the inputs are asked for only of an expression that compiles.
-/

namespace RegexNfa

namespace CommandLine

/-! ## Plans that ask -/

namespace Plan

variable {α β : Type} {around : Surroundings}

/-- In a world with these surroundings the plan comes to a point where it asks for standard input. -/
def AsksStdin (around : Surroundings) : Plan α → Prop
  | done _ => False
  | readFile path next => (next (around.read path)).AsksStdin around
  | readStdin _ => True
  | askTerminals next => (next around.terminals).AsksStdin around

/-- A plan that does not ask cannot tell two worlds apart that differ in standard input only. -/
lemma runIn_eq_of_not_asks {p : Plan α} (h : ¬ p.AsksStdin around) (s s' : ByteArray) :
    p.runIn ⟨around, s⟩ = p.runIn ⟨around, s'⟩ := by
  induction p with
  | done a => rfl
  | readFile path next ih => exact ih (around.read path) h
  | readStdin next _ => exact absurd trivial h
  | askTerminals next ih => exact ih around.terminals h

/-- Of two plans one after the other, the second matters if the first did not ask, and then its start is settled. -/
lemma asksStdin_bind (p : Plan α) (f : α → Plan β) (s : ByteArray) :
    (p >>= f).AsksStdin around ↔ p.AsksStdin around ∨ (f (p.runIn ⟨around, s⟩)).AsksStdin around := by
  induction p with
  | done a => exact (or_iff_right id).symm
  | readFile path next ih => exact ih (around.read path)
  | readStdin next _ => exact iff_of_true trivial (.inl trivial)
  | askTerminals next ih => exact ih around.terminals

end Plan

variable {around : Surroundings} {e : ExpressionInput} {i : Invocation} {logging colored : Bool}
  {next : Compilation → Plan Outcome} {words : List String} {read : Reader}

/-! ## What asks -/

/-- Loading asks for standard input exactly for an expression that is to come from there. -/
lemma load_asks (e : ExpressionInput) : (load e).AsksStdin around ↔ e.isStdin = true := by
  obtain ⟨text, file⟩ := e
  cases text with
  | some text => cases file <;> exact iff_of_false id Bool.false_ne_true
  | none =>
    cases file with
    | none => exact iff_of_false id Bool.false_ne_true
    | some path =>
      by_cases hpath : path = "-"
      · rw [hpath]
        exact iff_of_true trivial rfl
      · have hnot : ExpressionInput.isStdin { file := some path } = false := by
          simp [ExpressionInput.isStdin, hpath]
        rw [hnot, load]
        simp only [if_neg hpath]
        exact iff_of_false id Bool.false_ne_true

/-- With no more than the files, the expression is there and compiles. -/
def Compiles (around : Surroundings) (e : ExpressionInput) (logging : Bool) (c : Compilation) : Prop :=
  ∃ source, (load e).runIn ⟨around, .empty⟩ = .ok source ∧ compile source.text logging = .ok c

/-- Past the common start only what is made of the compilation can still ask. -/
lemma withCompilation_asks : (withCompilation e logging colored next).AsksStdin around ↔
    e.isStdin = true ∨ ∃ c, Compiles around e logging c ∧ (next c).AsksStdin around := by
  rw [withCompilation, Plan.asksStdin_bind _ _ .empty, load_asks]
  apply or_congr_right
  unfold Compiles
  cases (load e).runIn ⟨around, .empty⟩ with
  | error err =>
    refine iff_of_false id ?_
    rintro ⟨c, ⟨source, hload, _⟩, _⟩
    exact absurd hload (by simp)
  | ok source =>
    have hsource : ∀ {c}, (∃ s, (.ok source : Except LoadError ExpressionSource) = .ok s ∧
        compile s.text logging = .ok c) ↔ compile source.text logging = .ok c := by
      simp
    simp only [hsource, compileOr]
    cases hcompile : compile source.text logging with
    | error failure =>
      refine iff_of_false ?_ ?_
      · cases failure <;> exact id
      · rintro ⟨c, hc, _⟩
        exact absurd hc (by simp)
    | ok c =>
      simp

/-- The lines of standard input are asked for; inputs that were given are not. -/
lemma resolve_asks (place : InputSource) : (resolve place).AsksStdin around ↔ place = .lines := by
  cases place with
  | given inputs => exact iff_of_false id (by simp)
  | lines => exact iff_of_true trivial rfl

/-- Once it is settled where the inputs come from, they are asked for only of an expression that compiles. -/
lemma exec_asks_of_choose {inputs : List String} {place : InputSource} (h : InputSource.choose e inputs = .ok place) :
    (exec e colored inputs).AsksStdin around ↔ e.isStdin = true ∨ (place = .lines ∧ ∃ c, Compiles around e false c) := by
  rw [exec, h]
  simp only [withCompilation_asks]
  apply or_congr_right
  refine (exists_congr fun c => and_congr_right fun _ => ?_).trans (exists_and_right.trans and_comm)
  rw [Plan.asksStdin_bind _ _ .empty, resolve_asks]
  apply or_iff_left
  cases (resolve place).runIn ⟨around, .empty⟩ <;> exact id

/-- `exec` with inputs asks as any command does.  Without inputs it refuses to take the expression from where the
inputs are to come from, and asks for inputs once the expression compiles. -/
lemma exec_asks (inputs : List String) : (exec e colored inputs).AsksStdin around ↔
    (e.isStdin = true ∧ inputs ≠ []) ∨ (inputs = [] ∧ e.isStdin = false ∧ ∃ c, Compiles around e false c) := by
  cases inputs with
  | cons first rest =>
    rw [exec_asks_of_choose (choose_cons e first rest)]
    simp
  | nil =>
    cases hstdin : e.isStdin with
    | true =>
      rw [exec, choose_nil_of_stdin hstdin]
      refine iff_of_false id ?_
      simp
    | false =>
      rw [exec_asks_of_choose (choose_nil_of_not_stdin hstdin), hstdin]
      simp

/-- What is to be done needs standard input: for the expression, unless `exec` has no inputs, or for the inputs of
`exec`, if there are none and the expression is from elsewhere, can be loaded and compiles. -/
def Invocation.NeedsStdin (around : Surroundings) (i : Invocation) : Prop :=
  (i.expression.isStdin = true ∧ i.action ≠ .exec []) ∨
    (i.action = .exec [] ∧ i.expression.isStdin = false ∧ ∃ c, Compiles around i.expression false c)

lemma carryOut_asks (colored : Bool) (i : Invocation) :
    (i.carryOut colored).AsksStdin around ↔ i.NeedsStdin around := by
  obtain ⟨e, color, action⟩ := i
  -- a command that only prints asks for nothing once it has a compilation
  have hplain : ∀ logging (report : Compilation → Outcome),
      (withCompilation e logging colored fun c => pure (report c)).AsksStdin around ↔ e.isStdin = true := by
    intro logging report
    rw [withCompilation_asks]
    apply or_iff_left
    rintro ⟨c, _, hasks⟩
    exact hasks
  cases action with
  | check | dump | graph | trace =>
    rw [Invocation.carryOut, hplain]
    simp [Invocation.NeedsStdin]
  | exec inputs =>
    rw [Invocation.carryOut, exec_asks]
    simp [Invocation.NeedsStdin]

lemma program_asks : (program words read).AsksStdin around ↔
    ∃ i, Invocation.ofWords words read = .ok i ∧ i.NeedsStdin around := by
  cases hwords : Invocation.ofWords words read with
  | error refusal =>
    rw [program, hwords]
    refine iff_of_false id ?_
    rintro ⟨i, hi, _⟩
    exact absurd hi (by simp)
  | ok i =>
    rw [program, hwords]
    exact (carryOut_asks _ i).trans (by simp)

/-! ## How runs end that ask for nothing -/

/-- `exec` cannot take the expression from where it would take the inputs from. -/
lemma runIn_carryOut_of_conflict {w : World} (hstdin : i.expression.isStdin = true) (hinputs : i.action = .exec []) :
    (i.carryOut colored).runIn w = .failure InputsError.stdinConflict.message := by
  obtain ⟨e, color, action⟩ := i
  obtain rfl : action = .exec [] := hinputs
  change (exec e colored []).runIn w = _
  rw [exec, choose_nil_of_stdin hstdin]
  rfl

/-- An expression that is not from standard input is loaded the same whatever is there. -/
lemma runIn_load (he : e.isStdin = false) (s : ByteArray) :
    (load e).runIn ⟨around, s⟩ = (load e).runIn ⟨around, .empty⟩ := by
  apply Plan.runIn_eq_of_not_asks
  rw [load_asks, he]
  exact Bool.false_ne_true

lemma runIn_carryOut_of_unloaded {err : LoadError} (he : i.expression.isStdin = false)
    (hload : (load i.expression).runIn ⟨around, .empty⟩ = .error err) (s : ByteArray) :
    (i.carryOut colored).runIn ⟨around, s⟩ = .failure err.message := by
  apply runIn_carryOut_of_ended he
  intro logging next
  rw [runIn_withCompilation, runIn_load he, hload]

lemma runIn_carryOut_of_uncompiled {source : ExpressionSource} {invalid : InvalidExpression}
    (he : i.expression.isStdin = false) (hload : (load i.expression).runIn ⟨around, .empty⟩ = .ok source)
    (hcompile : compile source.text = .error (.invalid invalid)) (s : ByteArray) :
    (i.carryOut colored).runIn ⟨around, s⟩ = refusedOutcome source colored invalid := by
  have hinvalid : ∀ logging, compile source.text logging = .error (.invalid invalid) := by
    rcases compile_or_invalid source.text with ⟨c, hc⟩ | ⟨invalid', hinvalid'⟩
    · rw [hcompile] at hc
      exact absurd hc (by simp)
    · rw [← (hinvalid' false).symm.trans hcompile]
      exact hinvalid'
  apply runIn_carryOut_of_ended he
  intro logging next
  exact runIn_withCompilation_of_invalid ((runIn_load he s).trans hload) (hinvalid logging)

/-- Standard input is asked for exactly if what is to be done needs it, and otherwise no two contents of it make a
difference.  In particular `exec` without inputs refuses to take the expression from there, in every world, and says
what is wrong with any other expression before it looks there at all. -/
theorem stdin_matters_only_if_needed (read : Reader) (around : Surroundings) (words : List String) :
    ((program words read).AsksStdin around ↔ ∃ i, Invocation.ofWords words read = .ok i ∧ i.NeedsStdin around) ∧
    ((¬ ∃ i, Invocation.ofWords words read = .ok i ∧ i.NeedsStdin around) →
      ∀ s s', (program words read).runIn ⟨around, s⟩ = (program words read).runIn ⟨around, s'⟩) ∧
    ∀ i, Invocation.ofWords words read = .ok i →
      (i.expression.isStdin = true → i.action = .exec [] →
        ∀ s, (program words read).runIn ⟨around, s⟩ = .failure InputsError.stdinConflict.message) ∧
      (i.expression.isStdin = false →
        (∀ err, (load i.expression).runIn ⟨around, .empty⟩ = .error err →
          ∀ s, (program words read).runIn ⟨around, s⟩ = .failure err.message) ∧
        ∀ source invalid, (load i.expression).runIn ⟨around, .empty⟩ = .ok source →
          compile source.text = .error (.invalid invalid) →
          ∀ s, (program words read).runIn ⟨around, s⟩ =
            refusedOutcome source (i.color.colored around.terminals) invalid) := by
  refine ⟨program_asks, ?_, ?_⟩
  · intro hneeds s s'
    rw [← program_asks] at hneeds
    exact Plan.runIn_eq_of_not_asks hneeds s s'
  · intro i hwords
    refine ⟨?_, ?_⟩
    · intro hstdin hinputs s
      rw [runIn_program hwords]
      exact runIn_carryOut_of_conflict hstdin hinputs
    · intro he
      refine ⟨?_, ?_⟩
      · intro err hload s
        rw [runIn_program hwords]
        exact runIn_carryOut_of_unloaded he hload s
      · intro source invalid hload hcompile s
        rw [runIn_program hwords]
        exact runIn_carryOut_of_uncompiled he hload hcompile s

/-- Bytes that are no text are of no consequence where the expression is at fault, nor where it was to come from
them. -/
theorem stdin_matters_only_if_needed_undecodable :
    String.fromUTF8? ⟨#[0xff]⟩ = none ∧
    (program ["exec", "-f", "-"]).runIn ⟨{}, ⟨#[0xff]⟩⟩ = .failure InputsError.stdinConflict.message ∧
    ∃ invalid, (program ["exec", "a("]).runIn ⟨{}, ⟨#[0xff]⟩⟩ = refusedOutcome { text := "a(" } false invalid := by
  obtain ⟨_, _, hconflicts⟩ := stdin_matters_only_if_needed readWords {} ["exec", "-f", "-"]
  have hconflict := (hconflicts _ rfl).1 rfl rfl ⟨#[0xff]⟩
  obtain ⟨_, _, hrefusals⟩ := stdin_matters_only_if_needed readWords {} ["exec", "a("]
  have hinvalid : compile "a(" = .error (.invalid ⟨.unclosedParen, .ofChar 1 '('⟩) := by decide
  have hrefusal := ((hrefusals _ rfl).2 rfl).2 { text := "a(" } _ rfl hinvalid ⟨#[0xff]⟩
  exact ⟨by decide, hconflict, _, hrefusal⟩

end CommandLine

end RegexNfa
