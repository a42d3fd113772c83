import RegexNfa.Span
import RegexNfa.Text.Width

/-!
# Lines and columns

Where a byte of a text stands when the text is shown.  A line ends with a newline, and a carriage return
just before it belongs to the ending; a newline at the very end opens no further line.  Tabs are shown as
four spaces, control characters as pictures of their own, and characters that turn the direction of
writing as the replacement character.
-/

namespace RegexNfa

namespace Excerpt

structure SourceLine where
  /-- from 1 -/
  number : Nat
  text : List Char
  /-- the byte at which the line starts -/
  start : Nat
  /-- the bytes of its ending -/
  ending : Nat
deriving DecidableEq, Repr

namespace SourceLine

/-- The byte after the line and its ending. -/
def stop (l : SourceLine) : Nat := l.start + byteLength l.text + l.ending

/-- A line that a newline ends, given what stands before the newline, the last character first. -/
def terminated (number start : Nat) : List Char → SourceLine
  | '\r' :: read => ⟨number, read.reverse, start, 2⟩
  | read => ⟨number, read.reverse, start, 1⟩

/-- The lines from line `number` on, of which `read` has been read already, the last character first. -/
def ofTextFrom (number start : Nat) (read : List Char) : List Char → List SourceLine
  | [] => if read.isEmpty then [] else [⟨number, read.reverse, start, 0⟩]
  | c :: rest =>
    if c = '\n' then
      let line := terminated number start read
      line :: ofTextFrom (number + 1) line.stop [] rest
    else ofTextFrom number start (c :: read) rest

end SourceLine

/-- The lines of a text; the empty text has one empty line. -/
def sourceLines (text : List Char) : List SourceLine :=
  match SourceLine.ofTextFrom 1 0 [] text with
  | [] => [⟨1, [], 0, 0⟩]
  | lines => lines

/-- How a character is shown. -/
def shown (c : Char) : List Char :=
  if c = '\t' then List.replicate 4 ' '
  else if c.toNat < 0x20 then [Char.ofNat (0x2400 + c.toNat)]
  else if c = '\x7f' then ['\u2421']
  else if c = '\u200d' then []
  else if CodePoints.has [(0x202a, 0x202e), (0x2066, 0x2069)] c then ['\ufffd']
  else [c]

/-- A text as it is shown. -/
def showText (text : List Char) : List Char := text.flatMap shown

/-- The columns that a text takes when it is shown. -/
def width (text : List Char) : Nat :=
  (showText text).foldl (fun n c => n + columns c) 0

/-- A place in the shown text. -/
structure Position where
  line : Nat
  /-- characters before it on its line -/
  char : Nat
  /-- columns before it on its line -/
  column : Nat
deriving DecidableEq, Repr

/-- The characters that lie wholly within the first `n` bytes. -/
def leading (n : Nat) : List Char → List Char
  | [] => []
  | c :: cs => if c.utf8Size ≤ n then c :: leading (n - c.utf8Size) cs else []

/-- The line that holds a byte; bytes beyond the text belong to its last line. -/
def lineOf (lines : List SourceLine) (byte : Nat) : SourceLine :=
  match lines.find? fun l => l.start ≤ byte && byte < l.stop with
  | some l => l
  | none => lines.getLast?.getD ⟨1, [], 0, 0⟩

/-- Whether a byte lies past the characters of its line. -/
def pastText (l : SourceLine) (byte : Nat) : Bool :=
  l.start + byteLength l.text < byte

/-- Where a range starts.  Past the end of a line counts as one character more, not as a column. -/
def startPosition (lines : List SourceLine) (byte : Nat) : Position :=
  let l := lineOf lines byte
  let before := leading (byte - l.start) l.text
  { line := l.number
    char := before.length + (pastText l byte).toNat
    column := width before }

/-- Where a range ends that started at `start`.  Past the end of a later line is a column more; on the
line of the start a range takes at least one column. -/
def endPosition (lines : List SourceLine) (start : Position) (byte : Nat) : Position :=
  let l := lineOf lines byte
  let before := leading (byte - l.start) l.text
  if l.number = start.line then
    { line := l.number, char := before.length, column := max (width before) (start.column + 1) }
  else
    let beyond := (pastText l byte).toNat
    { line := l.number, char := before.length + beyond, column := width before + beyond }

end Excerpt

end RegexNfa
