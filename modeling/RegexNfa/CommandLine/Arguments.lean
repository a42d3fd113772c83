/-!
# Reading the words of a command line

Which options and positionals were given.  Options may stand anywhere among the positionals; `--` makes
every later word a positional, and `-` alone is one.  An option's value is the next word or is attached:
`--file=x`, `-fx`, `-f=x`.  Short options group, so `-vfx` is `-v -f x`.

A value that stands as a word of its own is looked at when the next option, the next positional or the
end of the line comes, so an unknown option after a bad value is what gets reported.

The commands get to see none of the words, but the `Arguments` that a `Reader` delivers.  `readWords` is
such a reader; the program runs with any other as well.
-/

namespace RegexNfa

namespace CommandLine

/-- Why the words are not taken as a command. -/
inductive Refusal where
  | unknownArgument
  | invalidValue
  | argumentConflict
  | tooManyValues
  | invalidSubcommand
  /-- help was asked for -/
  | help
  /-- nothing was asked for -/
  | helpOnMissing
deriving DecidableEq, Repr

inductive ColorChoice where
  | auto
  | always
  | never
deriving DecidableEq, Repr

namespace ColorChoice

def ofWord? : String → Option ColorChoice
  | "auto" => some auto
  | "always" => some always
  | "never" => some never
  | _ => none

end ColorChoice

inductive CommandName where
  | check
  | dump
  | graph
  | exec
  | trace
deriving DecidableEq, Repr

inductive Switch where
  | file
  | color
  | events
  | compact
  | json
  | verbose
  | help
deriving DecidableEq, Repr

namespace Switch

def long? : Switch → Option String
  | file => some "file"
  | color => some "color"
  | events => some "events"
  | compact => some "compact"
  | json => some "json"
  | help => some "help"
  | verbose => none

def short? : Switch → Option Char
  | file => some 'f'
  | verbose => some 'v'
  | help => some 'h'
  | _ => none

def takesValue : Switch → Bool
  | file | color => true
  | _ => false

end Switch

namespace CommandName

def ofWord? : String → Option CommandName
  | "check" => some check
  | "dump" => some dump
  | "graph" => some graph
  | "exec" => some exec
  | "trace" => some trace
  | _ => none

/-- The options of a command. -/
def switches : CommandName → List Switch
  | check | exec => [.file, .color, .help]
  | dump => [.file, .color, .events, .help]
  | graph => [.file, .color, .compact, .help]
  | trace => [.file, .color, .verbose, .json, .help]

/-- Whether a command takes one more positional when it has `count`. -/
def hasRoom (count : Nat) : CommandName → Bool
  | check | dump | graph => count < 1
  | trace => count < 2
  | exec => true

end CommandName

/-- The options that were given. -/
structure Options where
  file : Option String := none
  color : Option ColorChoice := none
  /-- options without a value, other than `-v` -/
  flags : List Switch := []
  /-- how often `-v` was given, at most 255 -/
  verbose : Nat := 0
deriving DecidableEq, Repr

/-- What was given on a line, the positionals in their order. -/
structure Given extends Options where
  positionals : List String := []
deriving DecidableEq, Repr

/-- What was given to a command. -/
structure Arguments extends Options where
  /-- the value of `EXPR` -/
  expr : Option String := none
  /-- the values of `INPUT` -/
  inputs : List String := []
deriving DecidableEq, Repr

/-- Enters an option with the value that was found for it.  Only `-v` may be given twice. -/
def Given.enter (g : Given) (s : Switch) (value : Option String) : Except Refusal Given :=
  match s with
  | .file =>
    match value with
    | none => .error .invalidValue
    | some v =>
      if g.file.isSome then .error .argumentConflict
      else if v.isEmpty then .error .invalidValue
      else .ok { g with file := some v }
  | .color =>
    match value with
    | none => .error .invalidValue
    | some v =>
      if g.color.isSome then .error .argumentConflict
      else
        match ColorChoice.ofWord? v with
        | none => .error .invalidValue
        | some choice => .ok { g with color := some choice }
  | .verbose => .ok { g with verbose := min 255 (g.verbose + 1) }
  | .help => .error .help
  | .events | .compact | .json =>
    if s ∈ g.flags then .error .argumentConflict else .ok { g with flags := g.flags ++ [s] }

/-- The state of reading between two words. -/
structure Reading where
  given : Given := {}
  /-- an option with the word that is its value, once that has come -/
  pending : Option (Switch × Option String) := none
  /-- after `--` -/
  onlyPositionals : Bool := false
deriving DecidableEq, Repr

namespace Reading

/-- Enters the pending option. -/
def settle (r : Reading) : Except Refusal Reading :=
  match r.pending with
  | none => .ok r
  | some (s, value) => do
    let given ← r.given.enter s value
    return { r with given, pending := none }

/-- Meets an option that is complete. -/
def complete (r : Reading) (s : Switch) (value : Option String) : Except Refusal Reading := do
  let r ← r.settle
  let given ← r.given.enter s value
  return { r with given }

/-- Meets an option whose value is to come. -/
def await (r : Reading) (s : Switch) : Except Refusal Reading := do
  let r ← r.settle
  return { r with pending := some (s, none) }

def positional (command : CommandName) (r : Reading) (word : String) : Except Refusal Reading :=
  if command.hasRoom r.given.positionals.length then do
    let r ← r.settle
    return { r with given := { r.given with positionals := r.given.positionals ++ [word] } }
  else .error .unknownArgument

/-- Meets `--name` or `--name=value`. -/
def long (command : CommandName) (r : Reading) (body : List Char) : Except Refusal Reading :=
  let (name, rest) := body.span (· ≠ '=')
  let value := if rest.isEmpty then none else some (String.ofList (rest.drop 1))
  match command.switches.find? (·.long? = some (String.ofList name)) with
  | none => .error .unknownArgument
  | some s =>
    match s.takesValue, value with
    | true, some _ => r.complete s value
    | true, none => r.await s
    | false, some _ => .error .tooManyValues
    | false, none => r.complete s none

/-- Meets the letters after a single dash. -/
def short (command : CommandName) (r : Reading) : List Char → Except Refusal Reading
  | [] => .ok r
  | c :: rest =>
    match command.switches.find? (·.short? = some c) with
    | none => .error .unknownArgument
    | some s =>
      if s.takesValue then
        match rest with
        | [] => r.await s
        | '=' :: value => r.complete s (some (String.ofList value))
        | value => r.complete s (some (String.ofList value))
      else do
        let r ← r.complete s none
        short command r rest

/-- Meets a word that is no option. -/
def plain (command : CommandName) (r : Reading) (word : String) : Except Refusal Reading :=
  match r.pending with
  | some (s, none) => .ok { r with pending := some (s, some word) }
  | _ => r.positional command word

def word (command : CommandName) (r : Reading) (word : String) : Except Refusal Reading :=
  if r.onlyPositionals then r.positional command word
  else
    match word.toList with
    | ['-', '-'] => .ok { r with onlyPositionals := true }
    | '-' :: '-' :: body => r.long command body
    | '-' :: c :: letters => r.short command (c :: letters)
    | _ => r.plain command word

end Reading

namespace Given

/-- Reads the words after a command's name. -/
def ofWords (command : CommandName) (words : List String) : Except Refusal Given := do
  let r ← words.foldlM (Reading.word command) {}
  let r ← r.settle
  return r.given

/-- The first positional goes to `EXPR` and the others to `INPUT`. -/
def deliver (g : Given) : Arguments :=
  { toOptions := g.toOptions, expr := g.positionals.head?, inputs := g.positionals.tail }

end Given

/-- A word that names a command or the help on commands. -/
def namesSubcommand (word : String) : Bool :=
  word = "help" || (CommandName.ofWord? word).isSome

/-- Why the words before a command's name are refused, none of them being one. -/
def refusalBefore : List String → Refusal
  | [] => .helpOnMissing
  | word :: rest =>
    match word.toList with
    | ['-', '-'] =>
      match rest with
      | [] => .helpOnMissing
      | next :: _ => if namesSubcommand next then .unknownArgument else .invalidSubcommand
    | '-' :: '-' :: body =>
      if body = "help".toList then .help
      else if "help=".toList.isPrefixOf body then .tooManyValues
      else .unknownArgument
    | '-' :: c :: _ => if c = 'h' then .help else .unknownArgument
    | _ => .invalidSubcommand

/-- What `help` answers to the words after it: commands have no subcommands of their own. -/
def helpOn : List String → Refusal
  | [] => .help
  | [word] => if namesSubcommand word then .help else .invalidSubcommand
  | _ => .invalidSubcommand

/-- Makes out the command that the words of a line name, and what they give to it. -/
abbrev Reader := List String → Except Refusal (CommandName × Arguments)

def readWords : Reader
  | [] => .error (refusalBefore [])
  | word :: rest =>
    if word = "help" then .error (helpOn rest)
    else
      match CommandName.ofWord? word with
      | some command => (fun given => (command, given.deliver)) <$> Given.ofWords command rest
      | none => .error (refusalBefore (word :: rest))

end CommandLine

end RegexNfa
