import Mathlib.Data.List.Forall2
import RegexNfa.Proofs.CommandLine.Commands
import RegexNfa.Proofs.Compilation.Acceptance
import RegexNfa.Proofs.Text.Quoted

/-!
# The report on many inputs

A script reads the verdicts line by line and trusts that the k-th line is about the k-th input, whatever the inputs
hold.  This rests on three things: there is a verdict for every input (`execReport_eq`), a line is not broken by the
input it quotes and shows no colour but that of its verdict (`Reports`), and so the lines can be read back off the
output (`linesFrom_join`).
-/

namespace RegexNfa

namespace CommandLine

/-! ## Lines -/

variable {words positionals inputs : List String} {read : Reader} {e : ExpressionInput} {color : ColorChoice}
  {source : ExpressionSource} {place : InputSource} {w : World} {c : Compilation}

lemma runIn_exec (hload : (load e).runIn w = .ok source) (hcompile : compile source.text = .ok c)
    (hplace : InputSource.choose e positionals = .ok place) (hinputs : (resolve place).runIn w = .ok inputs)
    (colored : Bool) :
    (exec e colored positionals).runIn w = execReport (.ofBool colored) c.automaton inputs := by
  rw [exec, hplace]
  simp only
  rw [runIn_withCompilation_of_compiled hload hcompile, Plan.runIn_bind, hinputs]
  rfl

end CommandLine

end RegexNfa
