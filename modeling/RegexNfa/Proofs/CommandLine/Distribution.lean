import RegexNfa.Proofs.CommandLine.Commands
import RegexNfa.Proofs.CommandLine.Delivery

/-!
# Where the positionals go

The reader delivers the first positional as the expression and the others as inputs.  Unless the expression is read
from a file it stays so; else `exec` puts the first one back in front of its inputs, and `trace` takes it for its input
if it has no other (`Invocation.kept_shiftToInputs`, `Invocation.kept_shiftToInput`).  From what is delivered
(`Arguments.Carries`) all the rest follows: how the positionals are shared out is a matter of how many there are and
whether a file is given (`positionals_are_shared_out`).
-/

namespace RegexNfa

namespace CommandLine

variable {command : CommandName} {given : Arguments} {items : List Item}

/-! ## How loading ends -/

variable {w : World} {e : ExpressionInput}

/-- What goes wrong with a file, or with standard input, is reported as such. -/
lemma runIn_load_file (w : World) (path : String) :
    ∃ (wrap : ReadError → LoadError) (read : Except ReadError ExpressionSource),
      (load { file := some path }).runIn w = read.mapError wrap ∧
      ∀ err, wrap err ≠ .conflict ∧ wrap err ≠ .missing := by
  by_cases hpath : path = "-"
  · refine ⟨.stdin, ExpressionSource.ofBytes "<stdin>" (.ok w.stdin), ?_, by simp⟩
    simp only [load, if_pos hpath]
    rfl
  · refine ⟨.file path, ExpressionSource.ofBytes path (w.read path), ?_, by simp⟩
    simp only [load, if_neg hpath]
    rfl

/-- An expression is given twice if there are a text and a file, and missing if there is neither. -/
lemma runIn_load_eq_error (w : World) (e : ExpressionInput) :
    ((load e).runIn w = .error .conflict ↔ e.text.isSome = true ∧ e.file.isSome = true) ∧
      ((load e).runIn w = .error .missing ↔ e.text = none ∧ e.file = none) := by
  obtain ⟨text, file⟩ := e
  cases text with
  | some text =>
    cases file with
    | some path =>
      have hload : (load { text := some text, file := some path }).runIn w = .error .conflict := rfl
      rw [hload]
      simp
    | none =>
      rw [runIn_load_text]
      simp
  | none =>
    cases file with
    | some path =>
      obtain ⟨wrap, read, hload, hwrap⟩ := runIn_load_file w path
      rw [hload]
      cases read with
      | ok source => simp [Except.mapError]
      | error err =>
        obtain ⟨hconflict, hmissing⟩ := hwrap err
        simp [Except.mapError, hconflict, hmissing]
    | none =>
      have hload : (load { }).runIn w = .error .missing := rfl
      rw [hload]
      simp

/-! ## Sharing out -/

/-- The command that does it. -/
def Action.commandName : Action → CommandName
  | check => .check
  | dump _ => .dump
  | graph _ => .graph
  | exec _ => .exec
  | trace _ _ _ => .trace

/-- The inputs that were given with it. -/
def Action.inputs : Action → List String
  | exec inputs => inputs
  | trace _ input _ => input.toList
  | check | dump _ | graph _ => []

/-- How an invocation shares out what stands among the items: the positionals, and the file if there is one. -/
structure Invocation.SharesOut (command : CommandName) (items : List Item) (i : Invocation) : Prop where
  does : i.action.commandName = command
  kept : i.expression.text.toList ++ i.action.inputs = Item.positionals items
  file : ∀ path, i.expression.file = some path ↔ .option .file (some path) ∈ items
  missing : ∀ w, (load i.expression).runIn w = .error .missing ↔ ¬ FromFile items ∧ Item.positionals items = []
  exec : command = .exec → (i.expression.text = none ↔ FromFile items ∨ Item.positionals items = []) ∧
    ∀ w, (load i.expression).runIn w ≠ .error .conflict
  trace : command = .trace → (Item.positionals items).length ≤ 2 ∧
    (∀ w, (load i.expression).runIn w = .error .conflict ↔ FromFile items ∧ (Item.positionals items).length = 2) ∧
    (FromFile items → (Item.positionals items).length = 1 → i.action.inputs = Item.positionals items)
  single : command ≠ .exec → command ≠ .trace → (Item.positionals items).length ≤ 1 ∧
    ∀ w, (load i.expression).runIn w = .error .conflict ↔ FromFile items ∧ (Item.positionals items).length = 1

/-- There are no more positionals than the command has room for. -/
lemma le_of_hasRoom {k m : Nat} (hroom : ∀ n < k, command.hasRoom n = true) (hfull : command.hasRoom m = false) :
    k ≤ m := by
  by_contra hmore
  rw [hroom m (by omega)] at hfull
  exact absurd hfull (by decide)

namespace Invocation

/-! ### The shift -/

lemma kept_shiftToInputs (fromFile : Bool) (text : Option String) (inputs : List String) :
    (shiftToInputs fromFile text inputs).1.toList ++ (shiftToInputs fromFile text inputs).2 =
      text.toList ++ inputs := by
  cases fromFile with
  | false => rfl
  | true => cases text <;> rfl

lemma kept_shiftToInput (fromFile : Bool) (text input : Option String) :
    (shiftToInput fromFile text input).1.toList ++ (shiftToInput fromFile text input).2.toList =
      text.toList ++ input.toList := by
  cases fromFile with
  | false => rfl
  | true =>
    cases text with
    | none => rfl
    | some first => cases input <;> rfl

lemma text_shiftToInputs {fromFile : Bool} {text : Option String} {inputs : List String} :
    (shiftToInputs fromFile text inputs).1 = none ↔ text = none ∨ fromFile = true := by
  cases fromFile with
  | false => simp [shiftToInputs]
  | true => cases text <;> simp [shiftToInputs]

lemma text_shiftToInput {fromFile : Bool} {text input : Option String} :
    (shiftToInput fromFile text input).1 = none ↔ text = none ∨ fromFile = true ∧ input = none := by
  cases fromFile with
  | false => simp [shiftToInput]
  | true => cases text <;> cases input <;> simp [shiftToInput]

/-! ### From the arguments -/

lemma file_ofArguments (command : CommandName) (given : Arguments) :
    (ofArguments command given).expression.file = given.file := by
  cases command <;> rfl

/-- The expression has no text where none is delivered, or where it is an input. -/
lemma text_ofArguments : (ofArguments command given).expression.text = none ↔ given.expr = none ∨
    given.file.isSome = true ∧ (command = .exec ∨ command = .trace ∧ given.inputs.head? = none) := by
  cases command with
  | check | dump | graph => simp [ofArguments]
  | exec => exact text_shiftToInputs.trans (by simp)
  | trace => exact text_shiftToInput.trans (by simp)

lemma commandName_ofArguments (command : CommandName) (given : Arguments) :
    (ofArguments command given).action.commandName = command := by
  cases command <;> rfl

end Invocation

namespace Arguments.Carries

variable (h : given.Carries command items)
include h

lemma fromFile_iff : FromFile items ↔ given.file.isSome = true := by
  rw [Option.isSome_iff_exists]
  exact exists_congr fun path => (h.file path).symm

lemma expr_iff : given.expr = none ↔ Item.positionals items = [] := by
  rw [h.first, List.head?_eq_none_iff]

/-- There is one positional exactly if there is a first one and no other. -/
lemma single_iff : (Item.positionals items).length = 1 ↔ given.expr ≠ none ∧ given.inputs.head? = none := by
  rw [h.first, h.others]
  cases Item.positionals items with
  | nil => simp
  | cons p ps => simp

/-- The text and the inputs are the positionals, in order. -/
lemma kept : (Invocation.ofArguments command given).expression.text.toList ++
    (Invocation.ofArguments command given).action.inputs = Item.positionals items := by
  have hall : given.expr.toList ++ given.inputs = Item.positionals items := by
    rw [h.first, h.others]
    cases Item.positionals items <;> rfl
  have hothers : given.inputs.length = (Item.positionals items).length - 1 := by
    rw [h.others, List.length_tail]
  cases command with
  | check | dump | graph =>
    have hone : (Item.positionals items).length ≤ 1 := le_of_hasRoom h.room (by decide)
    have hnone : given.inputs = [] := List.length_eq_zero_iff.1 (by omega)
    rw [hnone] at hall
    exact hall
  | exec => exact (Invocation.kept_shiftToInputs _ _ _).trans hall
  | trace =>
    have htwo : (Item.positionals items).length ≤ 2 := le_of_hasRoom h.room (by decide)
    have hslot : given.inputs.head?.toList = given.inputs := by
      cases hinputs : given.inputs with
      | nil => rfl
      | cons input more =>
        rw [hinputs, List.length_cons] at hothers
        have hnone : more = [] := List.length_eq_zero_iff.1 (by omega)
        rw [hnone]
        rfl
    rw [← hslot] at hall
    exact (Invocation.kept_shiftToInput _ _ _).trans hall

/-- The expression has no text where there is no positional, or where the first one is an input. -/
lemma text_iff : (Invocation.ofArguments command given).expression.text = none ↔ Item.positionals items = [] ∨
    FromFile items ∧ (command = .exec ∨ command = .trace ∧ (Item.positionals items).length = 1) := by
  rw [Invocation.text_ofArguments, h.single_iff, h.fromFile_iff, ← h.expr_iff]
  by_cases hexpr : given.expr = none
  · simp [hexpr]
  · simp [hexpr]

/-- A text beside the file is too much; no positional is a text where it is an input. -/
lemma conflict_iff (w : World) : (load (Invocation.ofArguments command given).expression).runIn w = .error .conflict ↔
    FromFile items ∧ Item.positionals items ≠ [] ∧
      ¬ (command = .exec ∨ command = .trace ∧ (Item.positionals items).length = 1) := by
  rw [(runIn_load_eq_error w _).1, Option.isSome_iff_ne_none, ne_eq, h.text_iff, Invocation.file_ofArguments,
    ← h.fromFile_iff]
  constructor
  · rintro ⟨htext, hfile⟩
    exact ⟨hfile, fun hnone => htext (.inl hnone), fun hshifted => htext (.inr ⟨hfile, hshifted⟩)⟩
  · rintro ⟨hfile, hsome, hkept⟩
    refine ⟨?_, hfile⟩
    rintro (hnone | ⟨_, hshifted⟩)
    · exact hsome hnone
    · exact hkept hshifted

lemma missing_iff (w : World) : (load (Invocation.ofArguments command given).expression).runIn w = .error .missing ↔
    ¬ FromFile items ∧ Item.positionals items = [] := by
  rw [(runIn_load_eq_error w _).2, h.text_iff, Invocation.file_ofArguments, ← Option.not_isSome_iff_eq_none,
    ← h.fromFile_iff]
  constructor
  · rintro ⟨hnone | ⟨hsome, _⟩, hfile⟩
    · exact ⟨hfile, hnone⟩
    · exact absurd hsome hfile
  · rintro ⟨hfile, hnone⟩
    exact ⟨.inl hnone, hfile⟩

/-- From the number of positionals and the file all the rest follows, command by command. -/
theorem sharesOut : (Invocation.ofArguments command given).SharesOut command items := by
  refine ⟨Invocation.commandName_ofArguments command given, h.kept, ?_, h.missing_iff, ?_, ?_, ?_⟩
  · rw [Invocation.file_ofArguments]
    exact h.file
  · rintro rfl
    refine ⟨?_, fun w hconflict => ((h.conflict_iff w).1 hconflict).2.2 (.inl rfl)⟩
    rw [h.text_iff, or_comm]
    simp
  · rintro rfl
    have htwo : (Item.positionals items).length ≤ 2 := le_of_hasRoom h.room (by decide)
    refine ⟨htwo, ?_, ?_⟩
    · intro w
      rw [h.conflict_iff w, ne_eq, ← List.length_eq_zero_iff]
      simp only [reduceCtorEq, false_or, true_and]
      refine and_congr_right fun _ => ?_
      omega
    · intro hfile hone
      have htext : (Invocation.ofArguments .trace given).expression.text = none :=
        h.text_iff.2 (.inr ⟨hfile, .inr ⟨rfl, hone⟩⟩)
      have hkept := h.kept
      rw [htext] at hkept
      exact hkept
  · intro hexec htrace
    have hone : (Item.positionals items).length ≤ 1 := by
      refine le_of_hasRoom h.room ?_
      cases command with
      | check | dump | graph => rfl
      | exec => exact absurd rfl hexec
      | trace => exact absurd rfl htrace
    refine ⟨hone, ?_⟩
    intro w
    rw [h.conflict_iff w, ne_eq, ← List.length_eq_zero_iff]
    simp only [hexec, htrace, false_and, or_self, not_false_eq_true, and_true]
    refine and_congr_right fun _ => ?_
    omega

end Arguments.Carries

/-! ## The program -/

variable {words : List String} {read : Reader} {i : Invocation}

/-- A run without an expression, or with two, ends with the message about that. -/
lemma runIn_carryOut_of_unclear {err : LoadError} (colored : Bool) (herr : err = .missing ∨ err = .conflict)
    (hload : (load i.expression).runIn w = .error err) : (i.carryOut colored).runIn w = .failure err.message := by
  have hstdin : i.expression.isStdin = false := by
    obtain ⟨hconflict, hmissing⟩ := runIn_load_eq_error w i.expression
    rcases herr with rfl | rfl
    · rw [ExpressionInput.isStdin, (hmissing.1 hload).2]
      simp
    · obtain ⟨text, htext⟩ := Option.isSome_iff_exists.1 (hconflict.1 hload).1
      rw [ExpressionInput.isStdin, htext]
      rfl
  apply runIn_carryOut_of_ended hstdin
  intro logging next
  rw [runIn_withCompilation, hload]

/-- The positionals of a command line are shared out in their order, wherever the options stand and however they are
written, and whether the expression is missing or given twice is told from their number and from `-f`.  What is assumed
of the reader is in `hread`: above all that it delivers them in order, the first one to `EXPR`. -/
theorem positionals_are_shared_out (hread : read.Delivers) (h : Invocation.ofWords words read = .ok i) :
    ∃ name command rest, words = name :: rest ∧ CommandName.ofWord? name = some command ∧
      (∃ items, Line command rest items) ∧
      (∀ items, Line command rest items → i.SharesOut command items) ∧
      ∀ w err, err = .missing ∨ err = .conflict → (load i.expression).runIn w = .error err →
        (program words read).runIn w = .failure err.message := by
  obtain ⟨command, given, hgiven, rfl⟩ := Invocation.ofWords_eq_ok.1 h
  obtain ⟨name, rest, items, rfl, hname, hline⟩ := hread.spelled hgiven
  refine ⟨name, command, rest, rfl, hname, ⟨items, hline⟩, ?_, ?_⟩
  · intro items hline
    exact (hread.inOrder hgiven hline).sharesOut
  · intro w err herr hload
    rw [runIn_program h]
    exact runIn_carryOut_of_unclear _ herr hload

/-- Options between the positionals and a word after the separator that looks like one; and a second positional of
`trace` beside a file. -/
theorem positionals_are_shared_out_interleaved :
    Line .exec ["b", "-fx", "--color", "never", "--", "-c"]
      [.positional "b", .option .file (some "x"), .option .color (some "never"), .positional "-c"] ∧
    (∃ i, Invocation.ofWords ["exec", "b", "-fx", "--color", "never", "--", "-c"] = .ok i ∧
      i.expression.text = none ∧ i.action.inputs = ["b", "-c"]) ∧
    ∀ w, (program ["trace", "a", "--file=x", "b"]).runIn w = .failure LoadError.conflict.message := by
  have hknown : Switch.file ∈ CommandName.exec.switches := by decide
  have hfile : Word .exec "-fx" [.option .file (some "x")] none :=
    .letters (List.cons_ne_nil 'f' ['x']) (.attached hknown rfl rfl (List.cons_ne_nil 'x' []) (by decide))
  have hcolor : Word .exec ("--" ++ "color") [] (some .color) := .last (by decide) rfl rfl
  have hline : Line .exec ["b", "-fx", "--color", "never", "--", "-c"]
      [.positional "b", .option .file (some "x"), .option .color (some "never"), .positional "-c"] :=
    .word (.positional fun h => absurd h (by decide))
      (.word hfile (.valued hcolor (fun h => absurd h (by decide)) (.separator ["-c"])))
  refine ⟨hline, ?_, ?_⟩
  · have hread : Invocation.ofWords ["exec", "b", "-fx", "--color", "never", "--", "-c"] =
        .ok { expression := { file := some "x" }, color := .never, action := .exec ["b", "-c"] } := rfl
    obtain ⟨name, command, rest, hwords, hname, _, hshares, _⟩ := positionals_are_shared_out readWords_delivers hread
    obtain ⟨rfl, rfl⟩ := List.cons.inj hwords
    obtain rfl : CommandName.exec = command := Option.some.inj hname
    have hshared := hshares _ hline
    have htext := (hshared.exec rfl).1.2 (.inl ⟨"x", by decide⟩)
    have hkept := hshared.kept
    rw [htext] at hkept
    exact ⟨_, hread, htext, hkept⟩
  · intro w
    have hread : Invocation.ofWords ["trace", "a", "--file=x", "b"] =
        .ok { expression := { text := some "a", file := some "x" }, color := .auto, action := .trace 0 (some "b") false } :=
      rfl
    obtain ⟨_, _, _, _, _, _, _, htold⟩ := positionals_are_shared_out readWords_delivers hread
    exact htold w .conflict (.inr rfl) rfl

end CommandLine

end RegexNfa
