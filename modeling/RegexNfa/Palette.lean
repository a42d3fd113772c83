/-!
# Palettes

The colour codes that output may be decorated with.  A palette that is off decorates with nothing, so
every printer takes a palette and there is no second, plain printer.
-/

namespace RegexNfa

structure Palette where
  /-- names of states -/
  blue : String := ""
  /-- acceptance -/
  green : String := ""
  /-- rejection, dead configurations -/
  red : String := ""
  /-- ε, headings, marks of little weight -/
  dim : String := ""
  reset : String := ""
deriving DecidableEq, Repr

namespace Palette

def off : Palette := {}

/-- Standard terminal codes, readable on light and dark ground. -/
def on : Palette where
  blue := "\x1b[34m"
  green := "\x1b[32m"
  red := "\x1b[31m"
  dim := "\x1b[2m"
  reset := "\x1b[0m"

def ofBool (colored : Bool) : Palette := if colored then on else off

def isOn (p : Palette) : Bool := !p.blue.isEmpty

/-- The codes a palette may write. -/
def codes (p : Palette) : List String := [p.blue, p.green, p.red, p.dim, p.reset]

/-- `text` between a colour and the reset. -/
def paint (p : Palette) (color text : String) : String := color ++ text ++ p.reset

@[simp] theorem paint_off (text : String) : off.paint "" text = text := by
  simp [paint, off]

end Palette

end RegexNfa
