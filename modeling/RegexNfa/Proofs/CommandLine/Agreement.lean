import RegexNfa.Proofs.CommandLine.Delivery
import RegexNfa.Proofs.CommandLine.Exec
import RegexNfa.Proofs.Compilation.Safety

/-!
# The commands agree

All commands start in the same way, so that what they make of an expression is the same for all: it compiles for each
of them or for none, and where it does not, they say the same (`runIn_carryOut_of_invalid`).  The log that `dump` may
ask for does not show in this.  The commands that judge an input run the automaton under different observers, and
none of those has a say in the verdict (`Automaton.Closed.exists_verdict`).  How the words come to be an expression and
an input is the reader's part, and no more is used of it than `Reader.Delivers`.
-/

namespace RegexNfa

/-- Plain acceptance, the recorder and every narrator come to one verdict. -/
lemma Automaton.Closed.exists_verdict {a : Automaton} (ha : a.Closed) (input : String) :
    ∃ accepted, a.accepts input = .ok accepted ∧ (∃ t, a.trace input = .ok t ∧ t.accepted = accepted) ∧
      ∀ n : Narrator, ∃ told, a.run Narrator.note n input = .ok (accepted, told) := by
  obtain ⟨settled, entered, h⟩ := exists_configurations ha
  refine ⟨_, accepts_eq_ok ha h input, ⟨_, trace_eq_ok ha h input, rfl⟩, ?_⟩
  intro n
  exact ⟨_, run_eq_ok ha h Narrator.note n input⟩

/-- A diagnostic says something. -/
lemma InvalidExpression.render_ne_empty (text path : Option String) (colored : Bool) (e : InvalidExpression) :
    e.render text path colored ≠ "" := by
  intro hnone
  have hlist := congrArg String.toList hnone
  unfold render at hlist
  simp only at hlist
  split_ifs at hlist
  · split at hlist <;> simp at hlist
  · simp [Excerpt.rows, String.toList_join] at hlist

/-! ## What the commands make of a compilation -/

namespace Compilation.Faultless

variable {c : Compilation} (h : c.Faultless)
include h

lemma exists_graphText (compact : Bool) : ∃ text, c.graphText compact = .ok text := by
  obtain ⟨g, hg⟩ := h.graph
  exact ⟨_, Fault.bind_eq_ok.2 ⟨_, Fault.bind_eq_ok.2 ⟨g, hg, rfl⟩, rfl⟩⟩

lemma exists_dumpReport (p : Palette) (events : Bool) : ∃ text, c.dumpReport p events = .ok text := by
  obtain ⟨dump, hdump⟩ := h.dump p
  obtain ⟨figures, hfigures⟩ := h.summary
  exact ⟨_, Fault.bind_eq_ok.2 ⟨dump, hdump, Fault.bind_eq_ok.2 ⟨figures, hfigures, rfl⟩⟩⟩

end Compilation.Faultless

namespace CommandLine

variable {w : World} {command : CommandName} {color : ColorChoice} {e input : String} {words : List String}
  {read : Reader} {action : Action} {colored : Bool} {c : Compilation}

/-- The commands that run an input. -/
def CommandName.judges : CommandName → Bool
  | exec | trace => true
  | check | dump | graph => false

/-- The words are a command with options, the separator, the expression and, if the command runs one, an input.  Of
the options it is only said that they are read, that there is no positional and no file among them, and which colour
they choose. -/
def Asks (read : Reader) (command : CommandName) (color : ColorChoice) (e input : String) (words : List String) :
    Prop :=
  ∃ name options given, words = name :: (options ++ "--" :: if command.judges then [e, input] else [e]) ∧
    "--" ∉ options ∧ read (name :: options) = .ok (command, given) ∧
    given.expr = none ∧ given.file = none ∧ given.color.getD .auto = color

/-- What a command does with one input. -/
inductive Does (input : String) : CommandName → Action → Prop where
  | check : Does input .check .check
  | dump (events : Bool) : Does input .dump (.dump events)
  | graph (compact : Bool) : Does input .graph (.graph compact)
  | exec : Does input .exec (.exec [input])
  | trace (verbose : Nat) (json : Bool) : Does input .trace (.trace verbose (some input) json)

/-- The options are left behind: what is to be done is settled by the command, the colour and the positionals. -/
lemma Asks.exists_action (hread : read.Delivers) (h : Asks read command color e input words) :
    ∃ action, Does input command action ∧
      Invocation.ofWords words read = .ok { expression := { text := some e }, color, action } := by
  obtain ⟨name, options, given, rfl, hoptions, hgiven, hnone, hfile, rfl⟩ := h
  have hroom : ∀ n < (if command.judges then [e, input] else [e]).length, command.hasRoom n = true := by
    cases command <;> simp [CommandName.judges, CommandName.hasRoom]
  have hdelivered := hread.afterSeparator hgiven hnone hoptions hroom
  have hwords := Invocation.ofWords_eq_ok.2 ⟨_, _, hdelivered, rfl⟩
  obtain ⟨⟨file, choice, flags, verbose⟩, expr, inputs⟩ := given
  obtain rfl : file = none := hfile
  cases command
  · exact ⟨_, .check, hwords⟩
  · exact ⟨_, .dump _, hwords⟩
  · exact ⟨_, .graph _, hwords⟩
  · exact ⟨_, .exec, hwords⟩
  · exact ⟨_, .trace _ _, hwords⟩

/-- If the expression does not compile, nothing depends on what was to be done. -/
lemma runIn_carryOut_of_invalid {invalid : InvalidExpression}
    (hinvalid : ∀ logging, compile e logging = .error (.invalid invalid)) :
    (Invocation.carryOut colored { expression := { text := some e }, color, action }).runIn w =
      refusedOutcome { text := e } colored invalid := by
  apply runIn_carryOut_of_ended rfl
  intro logging next
  exact runIn_withCompilation_of_invalid (runIn_load_text w e) (hinvalid logging)

/-! ## A run on an expression that compiles -/

section Compiled

variable (hcompile : compile e = .ok c)
include hcompile

lemma runIn_dump (events : Bool) :
    ∃ stdout, (Invocation.carryOut colored { expression := { text := some e }, color, action := .dump events }).runIn w =
      { exit := 0, stdout } := by
  have hspells := (exists_compile_iff_spells e false).1 ⟨c, hcompile⟩
  obtain ⟨logged, hlogged⟩ := (exists_compile_iff_spells e events).2 hspells
  obtain ⟨text, htext⟩ := (compile_faultless hlogged).exists_dumpReport (.ofBool colored) events
  have hrun : (Invocation.carryOut colored { expression := { text := some e }, color, action := .dump events }).runIn w =
      .success (logged.dumpReport (.ofBool colored) events) :=
    runIn_withCompilation_of_compiled (runIn_load_text w e) hlogged
  rw [htext] at hrun
  exact ⟨text, hrun⟩

lemma runIn_graph (compact : Bool) :
    ∃ stdout, (Invocation.carryOut colored { expression := { text := some e }, color, action := .graph compact }).runIn w =
      { exit := 0, stdout } := by
  obtain ⟨text, htext⟩ := (compile_faultless hcompile).exists_graphText compact
  have hrun : (Invocation.carryOut colored { expression := { text := some e }, color, action := .graph compact }).runIn w =
      .success ((· ++ "\n") <$> c.graphText compact) :=
    runIn_withCompilation_of_compiled (runIn_load_text w e) hcompile
  rw [htext] at hrun
  exact ⟨text ++ "\n", hrun⟩

lemma runIn_exec_single {accepted : Bool} (haccepted : c.automaton.accepts input = .ok accepted) :
    ∃ stdout, (Invocation.carryOut colored { expression := { text := some e }, color, action := .exec [input] }).runIn w =
      .verdict accepted stdout := by
  have hrun : (exec { text := some e } colored [input]).runIn w =
      execReport (.ofBool colored) c.automaton [input] :=
    runIn_exec (runIn_load_text w e) hcompile rfl rfl colored
  have hverdicts : [input].mapM c.automaton.accepts = .ok [accepted] := by
    rw [List.mapM_cons, haccepted]
    rfl
  rw [execReport, hverdicts] at hrun
  have hall : [accepted].all id = accepted := by
    rw [List.all_cons, List.all_nil, Bool.and_true, id]
  rw [← hall]
  exact ⟨_, hrun⟩

lemma runIn_trace {accepted : Bool} (haccepted : c.automaton.accepts input = .ok accepted) (verbose : Nat)
    (json : Bool) :
    ∃ stdout, (Invocation.carryOut colored
        { expression := { text := some e }, color, action := .trace verbose (some input) json }).runIn w =
      .verdict accepted stdout := by
  obtain ⟨accepted', haccepted', ⟨t, ht, htold⟩, hnarrated⟩ := (compile_closed hcompile).exists_verdict input
  rw [haccepted] at haccepted'
  obtain rfl := Except.ok.inj haccepted'
  have hrun : (Invocation.carryOut colored
        { expression := { text := some e }, color, action := .trace verbose (some input) json }).runIn w =
      traceReport colored json (.ofCount verbose) c.automaton input :=
    runIn_withCompilation_of_compiled (runIn_load_text w e) hcompile
  rw [hrun, traceReport]
  cases json with
  | true =>
    rw [if_pos rfl, ht]
    simp only [htold]
    exact ⟨_, rfl⟩
  | false =>
    obtain ⟨told, htold⟩ := hnarrated { verbosity := .ofCount verbose, palette := .ofBool colored }
    rw [if_neg Bool.false_ne_true, htold]
    exact ⟨_, rfl⟩

/-- The run says nothing on standard error, and only a verdict shows in its exit status. -/
lemma runIn_carryOut_of_compiled {accepted : Bool} (haccepted : c.automaton.accepts input = .ok accepted)
    (hdoes : Does input command action) :
    ∃ stdout, (Invocation.carryOut colored { expression := { text := some e }, color, action }).runIn w =
      { exit := if command.judges && !accepted then 1 else 0, stdout } := by
  have hexit : (if accepted then 0 else 1) = if !accepted then 1 else 0 := by
    cases accepted <;> rfl
  cases hdoes with
  | check => exact ⟨"", runIn_withCompilation_of_compiled (runIn_load_text w e) hcompile⟩
  | dump events => exact runIn_dump hcompile events
  | graph compact => exact runIn_graph hcompile compact
  | exec =>
    obtain ⟨stdout, hrun⟩ := runIn_exec_single hcompile haccepted
    rw [Outcome.verdict, hexit] at hrun
    exact ⟨stdout, hrun⟩
  | trace verbose json =>
    obtain ⟨stdout, hrun⟩ := runIn_trace hcompile haccepted verbose json
    rw [Outcome.verdict, hexit] at hrun
    exact ⟨stdout, hrun⟩

end Compiled

/-! ## All commands on one expression and one input -/

section Reader

variable (hread : read.Delivers)
include hread

lemma Asks.runIn_of_compiled {accepted : Bool} (h : Asks read command color e input words)
    (hcompile : compile e = .ok c) (haccepted : c.automaton.accepts input = .ok accepted) :
    ∃ stdout, (program words read).runIn w = { exit := if command.judges && !accepted then 1 else 0, stdout } := by
  obtain ⟨action, hdoes, hinvocation⟩ := h.exists_action hread
  rw [runIn_program hinvocation]
  exact runIn_carryOut_of_compiled hcompile haccepted hdoes

lemma Asks.runIn_of_invalid {invalid : InvalidExpression} (h : Asks read command color e input words)
    (hinvalid : ∀ logging, compile e logging = .error (.invalid invalid)) :
    (program words read).runIn w = refusedOutcome { text := e } (color.colored w.terminals) invalid := by
  obtain ⟨action, _, hinvocation⟩ := h.exists_action hread
  rw [runIn_program hinvocation]
  exact runIn_carryOut_of_invalid hinvalid

end Reader

/-- Any two command lines that ask for something to be done with one expression, and one input if there is an input,
agree as long as they choose the same colour: the expression compiles in all runs or in none, the diagnostic is the
same, and so is the verdict.  What is assumed of the reader is in `hread`: here, what it does with the words after the
separator. -/
theorem commands_agree (hread : read.Delivers) (w : World) (color : ColorChoice) (e input : String) :
    (∀ command words, Asks read command color e input words → command.judges = false →
      (((program words read).runIn w).exit = 0 ↔ ∃ c, compile e = .ok c)) ∧
    (∀ command words, Asks read command color e input words →
      (((program words read).runIn w).stderr = "" ↔ ∃ c, compile e = .ok c)) ∧
    ((¬ ∃ c, compile e = .ok c) → ∃ text, text ≠ "" ∧ ∀ command words, Asks read command color e input words →
      (program words read).runIn w = { exit := 1, stdout := "", stderr := text }) ∧
    ∀ c, compile e = .ok c → ∃ accepted, c.automaton.accepts input = .ok accepted ∧
      ∀ command words, Asks read command color e input words → command.judges = true →
        ((program words read).runIn w).exit = if accepted then 0 else 1 := by
  rcases compile_or_invalid e with ⟨c, hcompile⟩ | ⟨invalid, hinvalid⟩
  · obtain ⟨accepted, haccepted, _⟩ := (compile_closed hcompile).exists_verdict input
    have hsome : ∃ c, compile e = .ok c := ⟨c, hcompile⟩
    refine ⟨?_, ?_, fun hnone => absurd hsome hnone, ?_⟩
    · intro command words hwords hjudges
      obtain ⟨stdout, hrun⟩ := hwords.runIn_of_compiled hread (w := w) hcompile haccepted
      rw [hrun, hjudges]
      exact ⟨fun _ => hsome, fun _ => rfl⟩
    · intro command words hwords
      obtain ⟨stdout, hrun⟩ := hwords.runIn_of_compiled hread (w := w) hcompile haccepted
      rw [hrun]
      exact ⟨fun _ => hsome, fun _ => rfl⟩
    · intro c' hcompile'
      obtain rfl := Except.ok.inj (hcompile.symm.trans hcompile')
      refine ⟨accepted, haccepted, ?_⟩
      intro command words hwords hjudges
      obtain ⟨stdout, hrun⟩ := hwords.runIn_of_compiled hread (w := w) hcompile haccepted
      rw [hrun, hjudges]
      cases accepted <;> rfl
  · have hnone : ¬ ∃ c, compile e = .ok c := by
      rintro ⟨c, hcompile⟩
      rw [hinvalid] at hcompile
      exact absurd hcompile (by simp)
    have hsays : (refusedOutcome { text := e } (color.colored w.terminals) invalid).stderr ≠ "" :=
      InvalidExpression.render_ne_empty _ _ _ invalid
    refine ⟨?_, ?_, fun _ => ⟨_, hsays, fun _ _ hwords => hwords.runIn_of_invalid hread hinvalid⟩,
      fun c hcompile => absurd ⟨c, hcompile⟩ hnone⟩
    · intro command words hwords _
      rw [hwords.runIn_of_invalid hread hinvalid]
      exact ⟨fun hzero => absurd hzero Nat.one_ne_zero, fun hsome => absurd hsome hnone⟩
    · intro command words hwords
      rw [hwords.runIn_of_invalid hread hinvalid]
      exact ⟨fun hempty => absurd hempty hsays, fun hsome => absurd hsome hnone⟩

/-- An expression and an input that look like options. -/
theorem commands_agree_dashes :
    Asks readWords .check .always "-(a" "--json" ["check", "--color=always", "--", "-(a"] ∧
    Asks readWords .trace .always "-(a" "--json" ["trace", "--json", "-vv", "--color", "always", "--", "-(a", "--json"] ∧
    ∃ text, text ≠ "" ∧
      (program ["check", "--color=always", "--", "-(a"]).runIn ⟨{}, .empty⟩ = { exit := 1, stderr := text } ∧
      (program ["trace", "--json", "-vv", "--color", "always", "--", "-(a", "--json"]).runIn ⟨{}, .empty⟩ =
        { exit := 1, stderr := text } := by
  have hcheck : Asks readWords .check .always "-(a" "--json" ["check", "--color=always", "--", "-(a"] :=
    ⟨"check", ["--color=always"], _, rfl, by decide, rfl, rfl, rfl, rfl⟩
  have htrace : Asks readWords .trace .always "-(a" "--json"
      ["trace", "--json", "-vv", "--color", "always", "--", "-(a", "--json"] :=
    ⟨"trace", ["--json", "-vv", "--color", "always"], _, rfl, by decide, rfl, rfl, rfl, rfl⟩
  have hfails : ¬ ∃ c, compile "-(a" = .ok c := by
    rintro ⟨c, hcompile⟩
    have hinvalid : compile "-(a" = .error (.invalid ⟨.unclosedParen, .ofChar 1 '('⟩) := by decide
    rw [hinvalid] at hcompile
    exact absurd hcompile (by simp)
  obtain ⟨_, _, hsame, _⟩ := commands_agree readWords_delivers ⟨{}, .empty⟩ .always "-(a" "--json"
  obtain ⟨text, hsays, hruns⟩ := hsame hfails
  exact ⟨hcheck, htrace, text, hsays, hruns _ _ hcheck, hruns _ _ htrace⟩

end CommandLine

end RegexNfa
