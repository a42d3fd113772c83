import RegexNfa.Text.Hidden

/-!
# Quoted text

A character between apostrophes or a text between quotation marks.  NUL, tab, carriage return, newline,
the backslash and the enclosing mark are written with a backslash, hidden characters by their number in
hexadecimal; everything else stands for itself.  So a quoted text has no control character in it and
stays on its line.
-/

namespace RegexNfa

namespace Quoted

/-- A character by number. -/
def byNumber (c : Char) : List Char :=
  "\\u\x7b".toList ++ Nat.toDigits 16 c.toNat ++ ['\x7d']

/-- How a character is written inside quotes of the given mark. -/
def escape (mark c : Char) : List Char :=
  if c = '\x00' then ['\\', '0']
  else if c = '\t' then ['\\', 't']
  else if c = '\r' then ['\\', 'r']
  else if c = '\n' then ['\\', 'n']
  else if c = '\\' ∨ c = mark then ['\\', c]
  else if isHidden c then byNumber c
  else [c]

def encode (mark : Char) (cs : List Char) : List Char :=
  mark :: (cs.flatMap (escape mark) ++ [mark])

/-- A text between quotation marks. -/
def text (s : String) : String :=
  String.ofList (encode '\x22' s.toList)

/-- A character between apostrophes. -/
def char (c : Char) : String :=
  String.ofList (encode '\x27' [c])

end Quoted

end RegexNfa
