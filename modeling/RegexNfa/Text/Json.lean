/-!
# JSON text

Values as nested data, written without any white space or indented by two spaces a level.  Quotation
marks, backslashes and control characters are escaped; all else, non-ASCII included, stands for itself.
-/

namespace RegexNfa

inductive Json where
  | bool (b : Bool)
  | nat (n : Nat)
  | text (s : String)
  | list (items : List Json)
  /-- fields in the order of writing -/
  | record (fields : List (String × Json))

namespace Json

/-- How a character is written inside a JSON string. -/
def escape (c : Char) : List Char :=
  if c = '\x22' ∨ c = '\\' then ['\\', c]
  else if c = '\x08' then ['\\', 'b']
  else if c = '\x0c' then ['\\', 'f']
  else if c = '\n' then ['\\', 'n']
  else if c = '\r' then ['\\', 'r']
  else if c = '\t' then ['\\', 't']
  else if c.toNat < 0x10 then "\\u000".toList ++ Nat.toDigits 16 c.toNat
  else if c.toNat < 0x20 then "\\u00".toList ++ Nat.toDigits 16 c.toNat
  else [c]

def quote (s : String) : String :=
  String.ofList ('\x22' :: (s.toList.flatMap escape ++ ['\x22']))

/-- How nested values are set out: what stands before the first entry, between two, and after the last
of a value at some depth, and what stands between a key and its value. -/
structure Layout where
  first : Nat → String
  next : Nat → String
  last : Nat → String
  colon : String

namespace Layout

def compact : Layout where
  first _ := ""
  next _ := ","
  last _ := ""
  colon := ":"

/-- A new line, indented to a depth. -/
def newline (depth : Nat) : String :=
  String.ofList ('\n' :: List.replicate (2 * depth) ' ')

def pretty : Layout where
  first depth := newline (depth + 1)
  next depth := "," ++ newline (depth + 1)
  last depth := newline depth
  colon := ": "

/-- Entries between brackets; without entries the brackets touch. -/
def enclose (l : Layout) (depth : Nat) (opening closing : String) (entries : List String) : String :=
  if entries.isEmpty then opening ++ closing
  else opening ++ l.first depth ++ (l.next depth).intercalate entries ++ l.last depth ++ closing

end Layout

mutual

/-- A value as text. -/
def render (l : Layout) (depth : Nat) : Json → String
  | bool b => if b then "true" else "false"
  | nat n => toString n
  | text s => quote s
  | list items => l.enclose depth "[" "]" (renderItems l (depth + 1) items)
  | record fields => l.enclose depth "\x7b" "\x7d" (renderFields l (depth + 1) fields)

def renderItems (l : Layout) (depth : Nat) : List Json → List String
  | [] => []
  | v :: rest => render l depth v :: renderItems l depth rest

def renderFields (l : Layout) (depth : Nat) : List (String × Json) → List String
  | [] => []
  | (key, v) :: rest => (quote key ++ l.colon ++ render l depth v) :: renderFields l depth rest

end

def compact (v : Json) : String := v.render .compact 0

def pretty (v : Json) : String := v.render .pretty 0

end Json

end RegexNfa
