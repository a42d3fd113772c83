import RegexNfa.Excerpt.Position
import RegexNfa.Excerpt.Row
import RegexNfa.Text.Blank

/-!
# Indents

Lines that all start far to the right are shown moved to the left, with dots over the blanks cut off.
-/

namespace RegexNfa

namespace Excerpt

/-- The columns of the blanks that a line starts with. -/
def indentOf (text : List Char) : Nat :=
  (text.takeWhile isBlank).foldl (fun n c => n + if c = '\t' then 4 else 1) 0

/-- The columns cut off from lines that are shown together: when the lines and the marks in them all start after
more than 26 columns, all but 22 of these.  Lines of blanks alone have no say. -/
def cutOff (lines : List (List Char)) (leftmost : Nat) : Nat :=
  let indent := ((lines.filter fun l => !l.all isBlank).map indentOf).min?.getD 0
  if 26 < min indent leftmost then min indent leftmost - 22 else 0

/-- Drops characters until so many columns are gone: the columns dropped, which a wide character may bring
over the number, and what is left. -/
def dropColumns (n : Nat) : List Char → Nat × List Char
  | [] => (0, [])
  | c :: cs =>
    if n = 0 then (0, c :: cs)
    else
      let (dropped, rest) := dropColumns (n - columns c) cs
      (columns c + dropped, rest)

/-- What is shown of a line. -/
structure Part where
  text : List Char
  /-- the columns that the text stands right of its place, to leave room for dots -/
  shift : Nat
  /-- the columns that it has moved to the left in all -/
  moved : Nat
deriving DecidableEq, Repr

/-- The part of a line that is left when so many columns are cut off. -/
def Part.of (cut : Nat) (text : List Char) : Part :=
  let (dropped, rest) := dropColumns (min cut (width text)) (showText text)
  if cut = 0 then ⟨rest, 0, 0⟩
  else
    let (covered, rest) := dropColumns dots.length rest
    ⟨rest, covered, dropped⟩

/-- Writes the part of a line from a column on, with dots over the edge if something is cut off.  Also how many
columns the text has moved to the left. -/
def Row.putLine (row : Row) (cut column : Nat) (text : List Char) : Row × Nat :=
  let part := Part.of cut text
  let row := if cut = 0 then row else row.put column .gutter dots
  (row.put (column + part.shift) .plain part.text, part.moved)

end Excerpt

end RegexNfa
