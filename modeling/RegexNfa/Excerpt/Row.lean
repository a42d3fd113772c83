/-!
# Rows of output

A row is a list of coloured cells, one to a character.  It is drawn by writing pieces of text at columns,
the later over the earlier; neighbouring cells of one colour are painted together.
-/

namespace RegexNfa

namespace Excerpt

/-- What a cell is part of, which decides its colour. -/
inductive Ink where
  | plain
  /-- the word `error` -/
  | level
  /-- the title after it -/
  | title
  /-- line numbers, the rule beside them, and dots for what is left out -/
  | gutter
  /-- underlines and the label -/
  | mark
deriving DecidableEq, Repr

def Ink.codes : Ink → String
  | plain => ""
  | level | mark => "\x1b[1m\x1b[91m"
  | title => "\x1b[1m"
  | gutter => "\x1b[1m\x1b[94m"

def Ink.paint (ink : Ink) (text : String) : String :=
  if ink = plain then text else ink.codes ++ text ++ "\x1b[0m"

abbrev Row := List (Ink × Char)

/-- Three dots stand for what is left out. -/
def dots : List Char := ['.', '.', '.']

namespace Row

/-- Writes a text from a column on, over what stands there; the cells before it are blank. -/
def put (row : Row) (column : Nat) (ink : Ink) (text : List Char) : Row :=
  if text.isEmpty then row
  else row.take column ++ List.replicate (column - row.length) (.plain, ' ') ++
    text.map (ink, ·) ++ row.drop (column + text.length)

/-- The longest pieces of one colour. -/
def pieces : Row → List (Ink × List Char)
  | [] => []
  | (ink, c) :: row =>
    match pieces row with
    | [] => [(ink, [c])]
    | (next, cs) :: more =>
      if ink = next then (ink, c :: cs) :: more else (ink, [c]) :: (next, cs) :: more

def render (colored : Bool) (row : Row) : String :=
  if colored then String.join (row.pieces.map fun (ink, cs) => ink.paint (String.ofList cs))
  else String.ofList (row.map (·.2))

end Row

end Excerpt

end RegexNfa
