import RegexNfa.Excerpt.Indent
import RegexNfa.InvalidExpression

/-!
# Excerpts

A rejected expression shown with the offending range underlined:

    error: invalid expression
     --> q.re:2:3
      |
    2 | cd||e
      |   ^ `|` needs an expression on both sides

A range that goes over several lines is bracketed from its first line to its last; lines far from both
ends are left out.  Without a text to show, the message alone is written.
-/

namespace RegexNfa

namespace Excerpt

/-! ## The gutter -/

/-- The digits of the gutter: enough to number the lines begun before the range ends.  A range that ends where
a line starts has not begun that line. -/
def gutterDigits (text : List Char) (range : Span) : Nat :=
  (toString (sourceLines (leading range.stop text)).length).length

/-- The column of the rule beside the line numbers. -/
def ruleColumn (digits : Nat) : Nat := digits + 1

/-- The column of the text beside the rule.  Brackets, if there are any, stand here. -/
def textColumn (digits : Nat) : Nat := digits + 3

/-- The column of the text inside a bracket. -/
def bracketedColumn (digits : Nat) : Nat := textColumn digits + 2

/-- A row without a line number. -/
def ruledRow (digits : Nat) : Row := Row.put [] (ruleColumn digits) .gutter ['|']

/-- A number at the right end of the gutter. -/
def numberText (digits number : Nat) : List Char :=
  let text := (toString number).toList
  List.replicate (digits - text.length) ' ' ++ text

/-- A line with its number, and how many columns its text has moved to the left.  The rule keeps its column,
so that a number one digit wider than the gutter touches it. -/
def numberedRow (digits cut column : Nat) (line : SourceLine) : Row × Nat :=
  let (row, moved) := Row.putLine [] cut column line.text
  ((row.put 0 .gutter (numberText digits line.number)).put (ruleColumn digits) .gutter ['|'], moved)

/-- Writes an underline in the columns of a text that has moved to the left. -/
def underlined (row : Row) (column moved start stop : Nat) : Row :=
  (List.range' start (stop - start)).foldl (fun row p => row.put (column + p - moved) .mark ['^']) row

/-! ## One line -/

/-- The line and its underline. -/
def singleLine (digits : Nat) (line : SourceLine) (start stop : Position) (label : String) :
    List Row :=
  let column := textColumn digits
  let (text, moved) := numberedRow digits (cutOff [line.text] start.column) column line
  [text,
   underlined ((ruledRow digits).put (column + (stop.column + 1 - moved)) .mark label.toList)
    column moved start.column stop.column]

/-! ## Several lines -/

/-- Lines that say nothing: blank ones, lone brackets, comments. -/
def isSlight (text : List Char) : Bool :=
  let trimmed := ((text.dropWhile isBlank).reverse.dropWhile isBlank).reverse
  let comment := match trimmed with
    | '/' :: '/' :: c :: _ => c ≠ '/' && c ≠ '!'
    | ['/', '/'] => true
    | _ => false
  comment || trimmed.isEmpty || trimmed = ['\x7b'] || trimmed = ['\x7d'] || trimmed = ['('] ||
    trimmed = [')'] || trimmed = ['['] || trimmed = [']']

/-- The lines shown between the first and the last: up to the last line that says something of the four
lines from the first on, and the line before the last if it says something. -/
def innerLines (first : SourceLine) (between : List SourceLine) : List SourceLine :=
  let near := ((first :: between).take 4).reverse.dropWhile (isSlight ·.text)
  let head := near.reverse.drop 1
  let tail := match between.getLast? with
    | some l => if first.number + 4 < l.number && !isSlight l.text then [l] else []
    | none => []
  head ++ tail

/-- A line inside the bracket. -/
def innerRow (digits cut : Nat) (line : SourceLine) : Row :=
  (numberedRow digits cut (bracketedColumn digits) line).1.put (textColumn digits) .mark ['|']

/-- What stands between two shown lines: nothing, the one line between them, or dots. -/
def gapRows (digits cut : Nat) (all : List SourceLine) (upper lower : SourceLine) : List Row :=
  if lower.number ≤ upper.number + 1 then []
  else if lower.number = upper.number + 2 then
    (all.filter (·.number = upper.number + 1)).map (innerRow digits cut)
  else [(Row.put [] 0 .gutter dots).put (textColumn digits) .mark ['|']]

/-- The shown lines below `upper` up to the last, with the gaps between them. -/
def rowsBelow (digits cut : Nat) (all : List SourceLine) (upper : SourceLine) :
    List SourceLine → List Row
  | [] => []
  | l :: rest => gapRows digits cut all upper l ++ innerRow digits cut l :: rowsBelow digits cut all l rest

/-- The line of a bracket below its first or its last line, from the bracket to a column of a text that has moved
to the left. -/
def bracketRow (digits moved stop : Nat) (corner : Char) : Row :=
  let left := textColumn digits + 1
  let line := List.replicate (bracketedColumn digits + stop - moved - left) '_'
  ((ruledRow digits).put left .mark line).put (textColumn digits) .mark [corner]

/-- The first line of a bracket.  When the shown line has only blanks in as many places as columns stand before
the range, the bracket opens beside the line, otherwise below it at the column where the range starts. -/
def openingRows (digits cut : Nat) (line : SourceLine) (start : Position) : List Row :=
  let (text, moved) := numberedRow digits cut (bracketedColumn digits) line
  if ((showText line.text).take start.column).all isBlank then
    [text.put (textColumn digits) .mark ['/']]
  else
    [text, underlined (bracketRow digits moved start.column ' ') (bracketedColumn digits) moved
      start.column (start.column + 1)]

/-- The foot of a bracket, below its last line. -/
def closingRow (digits cut : Nat) (line : SourceLine) (stop : Position) (label : String) : Row :=
  let column := bracketedColumn digits
  let moved := (numberedRow digits cut column line).2
  let beside := if stop.column = 0 then 2 else stop.column + 1
  underlined
    ((bracketRow digits moved (stop.column - 1) '|').put (column + (beside - moved)) .mark
      label.toList)
    column moved (stop.column - 1) (stop.column - 1 + 1)

def severalLines (digits : Nat) (all : List SourceLine) (first last : SourceLine)
    (start stop : Position) (label : String) : List Row :=
  let between := all.filter fun l => first.number < l.number && l.number < last.number
  let inner := innerLines first between
  let leftmost := if inner.isEmpty then min start.column (stop.column - 1) else 0
  let cut := cutOff ((first :: inner ++ [last]).map (·.text)) leftmost
  openingRows digits cut first start ++ rowsBelow digits cut all first (inner ++ [last]) ++
    [closingRow digits cut last stop label]

/-! ## The whole excerpt -/

def titleRow (title : String) : Row :=
  "error".toList.map (.level, ·) ++ (": " ++ title).toList.map (.title, ·)

/-- Where the range starts, for a text that came from somewhere. -/
def locationRow (digits : Nat) (path : String) (start : Position) : Row :=
  (Row.put [] digits .gutter "--> ".toList).put (digits + 4) .plain
    s!"{path}:{start.line}:{start.char + 1}".toList

/-- The rows that show a range of a text under a label. -/
def rows (text : List Char) (path : Option String) (range : Span) (title label : String) :
    List Row :=
  let lines := sourceLines text
  let start := startPosition lines range.start
  let stop := endPosition lines start range.stop
  let digits := gutterDigits text range
  let location := path.toList.map fun p => locationRow digits p start
  let first := lineOf lines range.start
  let body :=
    if stop.line = start.line then singleLine digits first start stop label
    else severalLines digits lines first (lineOf lines range.stop) start stop label
  titleRow title :: location ++ ruledRow digits :: body

end Excerpt

/-- An invalid expression explained, against the text if there is one to show.  Without a text nothing
is coloured. -/
def InvalidExpression.render (text path : Option String) (colored : Bool) (e : InvalidExpression) :
    String :=
  let shown := (text.getD "").toList
  if shown.isEmpty then
    match path with
    | some p => "error: " ++ p ++ ": " ++ e.message ++ "\n"
    | none => "error: " ++ e.message ++ "\n"
  else
    String.join <| (Excerpt.rows shown path (e.span.visibleIn shown) title e.cause.message).map
      fun row => row.render colored ++ "\n"

end RegexNfa
