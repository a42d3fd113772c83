import RegexNfa.Run

/-!
# Recorded runs

A trace holds every change of the active set in order, with the verdict.
-/

namespace RegexNfa

/-- Whether a change follows ε edges or reads a character. -/
inductive StepKind where
  | closure
  | move
deriving DecidableEq, Repr

def StepKind.name : StepKind → String
  | closure => "closure"
  | move => "move"

instance : Coe StepKind String where
  coe := StepKind.name

/-- One change of the active set.  Its symbol is the character read, or ε if edges were followed without
reading. -/
structure Step where
  kind : StepKind
  symbol : Symbol
  previous : StateSet
  current : StateSet
  /-- characters read once the step is taken -/
  consumed : Nat
deriving DecidableEq

structure Trace where
  steps : List Step := []
  accepted : Bool := false
deriving DecidableEq

namespace Trace

/-- The trace with one more observation. -/
def note (t : Trace) : Observation → Trace
  | .closed consumed seed closure =>
    { t with steps := t.steps ++ [⟨.closure, .epsilon, seed, closure, consumed⟩] }
  | .moved consumed c before after =>
    { t with steps := t.steps ++ [⟨.move, .char c, before, after, consumed⟩] }
  | .verdict accepted _ => { t with accepted }

/-- The active set after the last step. -/
def final? (t : Trace) : Option StateSet :=
  t.steps.getLast?.map Step.current

end Trace

/-- The recorded run on an input. -/
def Automaton.trace (a : Automaton) (input : String) : Except Fault Trace :=
  Prod.snd <$> a.run Trace.note {} input

end RegexNfa
