import RegexNfa.CommandLine.Invocation

/-!
# What is read

The text of an expression and the lines of standard input, with what can go wrong on the way.  Bytes are
text only if they are valid UTF-8; bytes that are not give no text at all, not even the part before the
first bad one.
-/

namespace RegexNfa

namespace CommandLine

/-- An error of the operating system. -/
structure SystemError where
  code : Nat
  text : String
deriving DecidableEq, Repr

namespace SystemError

def noSuchFile : SystemError := ⟨2, "No such file or directory"⟩

def notDirectory : SystemError := ⟨20, "Not a directory"⟩

def isDirectory : SystemError := ⟨21, "Is a directory"⟩

def nameTooLong : SystemError := ⟨36, "File name too long"⟩

end SystemError

/-- Why nothing was read. -/
inductive ReadError where
  | system (e : SystemError)
  | notUtf8
deriving DecidableEq, Repr

def ReadError.message : ReadError → String
  | system e => s!"{e.text} (os error {e.code})"
  | notUtf8 => "stream did not contain valid UTF-8"

/-- Bytes as text. -/
def decode (bytes : Except SystemError ByteArray) : Except ReadError String :=
  match bytes with
  | .error e => .error (.system e)
  | .ok bytes =>
    match String.fromUTF8? bytes with
    | some text => .ok text
    | none => .error .notUtf8

/-! ## Expressions -/

/-- An expression and the name under which it is shown in diagnostics. -/
structure ExpressionSource where
  text : String
  path : Option String := none
deriving DecidableEq, Repr

inductive LoadError where
  | missing
  | conflict
  | stdin (e : ReadError)
  | file (path : String) (e : ReadError)
deriving DecidableEq, Repr

def LoadError.message : LoadError → String
  | missing => "expression is required: use a positional argument or -f/--file"
  | conflict => "expression given twice: use either a positional argument or -f/--file"
  | stdin e => "failed to read stdin: " ++ e.message
  | file path e => "failed to read '" ++ path ++ "': " ++ e.message

/-- The characters without one newline, or carriage return and newline, at the end. -/
def dropLineEnding (cs : List Char) : List Char :=
  match cs.reverse with
  | '\n' :: '\r' :: rest => rest.reverse
  | '\n' :: rest => rest.reverse
  | _ => cs

/-- The text without one line ending at its end; any other white space is part of it. -/
def stripLineEnding (text : String) : String :=
  String.ofList (dropLineEnding text.toList)

/-- An expression from the bytes of a file or of standard input. -/
def ExpressionSource.ofBytes (path : String) (bytes : Except SystemError ByteArray) :
    Except ReadError ExpressionSource := do
  let text ← decode bytes
  return { text := stripLineEnding text, path := some path }

/-! ## Inputs -/

/-- The lines of a text, the one being read reversed in `current`.  A newline at the very end opens no
further line. -/
def linesFrom (current : List Char) : List Char → List (List Char)
  | [] => if current.isEmpty then [] else [current.reverse]
  | c :: rest => if c = '\n' then current.reverse :: linesFrom [] rest else linesFrom (c :: current) rest

/-- A line without the carriage returns at its end. -/
def dropReturns (line : List Char) : List Char :=
  (line.reverse.dropWhile (· = '\r')).reverse

theorem linesFrom_append_newline (current line rest : List Char) (h : '\n' ∉ line) :
    linesFrom current (line ++ '\n' :: rest) = (current.reverse ++ line) :: linesFrom [] rest := by
  induction line generalizing current with
  | nil => simp [linesFrom]
  | cons c line ih =>
    have hc : c ≠ '\n' := fun hc => h (hc ▸ List.mem_cons_self)
    have hline : '\n' ∉ line := fun hline => h (List.mem_cons_of_mem c hline)
    rw [List.cons_append, linesFrom, if_neg hc, ih _ hline]
    simp

/-- The inputs that a text holds, one a line. -/
def inputLines (text : String) : List String :=
  (linesFrom [] text.toList).map fun line => String.ofList (dropReturns line)

/-- Where inputs come from, decided before anything is read. -/
inductive InputSource where
  | given (inputs : List String)
  /-- the lines of standard input -/
  | lines
deriving DecidableEq, Repr

inductive InputsError where
  | stdinConflict
  | read (e : ReadError)
deriving DecidableEq, Repr

def InputsError.message : InputsError → String
  | stdinConflict => "expression and inputs cannot both be from stdin"
  | read e => "failed to read stdin: " ++ e.message

/-- Inputs on the command line come first; standard input cannot give both expression and inputs. -/
def InputSource.choose (expression : ExpressionInput) (inputs : List String) :
    Except InputsError InputSource :=
  if !inputs.isEmpty then .ok (.given inputs)
  else if expression.isStdin then .error .stdinConflict
  else .ok .lines

/-- The bytes of every line, its newline included, the line being read reversed in `current`. -/
def rawLinesFrom (current : List UInt8) : List UInt8 → List (List UInt8)
  | [] => if current.isEmpty then [] else [current.reverse]
  | b :: rest =>
    if b = 0x0a then (b :: current).reverse :: rawLinesFrom [] rest else rawLinesFrom (b :: current) rest

/-- The input in the bytes of a line, without the line ending and the carriage returns before it. -/
def inputOfLine (line : List UInt8) : Except ReadError String := do
  let text ← decode (.ok line.toByteArray)
  return String.ofList (dropReturns (dropLineEnding text.toList))

/-- The inputs in the bytes of standard input.  Lines are decoded one by one, and the first that is no text
ends the reading without any input. -/
def inputsOfBytes (bytes : Except SystemError ByteArray) : Except InputsError (List String) :=
  match bytes with
  | .ok bytes => ((rawLinesFrom [] bytes.data.toList).mapM inputOfLine).mapError .read
  | .error e => .error (.read (.system e))

end CommandLine

end RegexNfa
