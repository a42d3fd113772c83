import RegexNfa.CommandLine.Arguments

/-!
# What the words of a command spell

The words after the name of a command stand for positionals and options, here called items.  An option has its value
attached, by `=` or, after a letter, without it; or its value is the next word.  Letters share one dash, the last of
them may have a value.  A word that starts with a dash is a positional only after the separator `--`, or if it is a
dash and nothing else.

`Line` says which items a list of words stands for, without regard to what has been given before.  `Reader.Delivers`
is all that is relied on of a reader: what the arguments that it delivers have to do with these items.
-/

namespace RegexNfa

namespace CommandLine

/-- A positional, or an option with its value. -/
inductive Item where
  | positional (word : String)
  | option (s : Switch) (value : Option String)
deriving DecidableEq, Repr

def Item.positional? : Item → Option String
  | positional word => some word
  | option _ _ => none

/-- The positionals among the items, in the order in which they stand. -/
def Item.positionals (items : List Item) : List String :=
  items.filterMap positional?

/-- Among the items is a file to read the expression from. -/
def FromFile (items : List Item) : Prop :=
  ∃ path, Item.option .file (some path) ∈ items

/-- The word is no option. -/
def Plain (w : String) : Prop :=
  w.toList.head? = some '-' → w = "-"

/-- The letters after a dash are these options; `last` is an option at the end whose value is to come. -/
inductive Letters (command : CommandName) : List Char → List Item → Option Switch → Prop where
  | nil : Letters command [] [] none
  | flag {c : Char} {s : Switch} {letters : List Char} {items : List Item} {last : Option Switch}
      (known : s ∈ command.switches) (letter : s.short? = some c) (bare : s.takesValue = false)
      (more : Letters command letters items last) :
      Letters command (c :: letters) (.option s none :: items) last
  | attached {c : Char} {s : Switch} {value : List Char} (known : s ∈ command.switches)
      (letter : s.short? = some c) (valued : s.takesValue = true) (present : value ≠ [])
      (unmarked : value.head? ≠ some '=') :
      Letters command (c :: value) [.option s (some (String.ofList value))] none
  | equals {c : Char} {s : Switch} {value : List Char} (known : s ∈ command.switches)
      (letter : s.short? = some c) (valued : s.takesValue = true) :
      Letters command (c :: '=' :: value) [.option s (some (String.ofList value))] none
  | last {c : Char} {s : Switch} (known : s ∈ command.switches) (letter : s.short? = some c)
      (valued : s.takesValue = true) :
      Letters command [c] [] (some s)

/-- One word, before the separator; `last` is an option in it whose value is to come. -/
inductive Word (command : CommandName) : String → List Item → Option Switch → Prop where
  | positional {w : String} (plain : Plain w) : Word command w [.positional w] none
  | flag {s : Switch} {name : String} (known : s ∈ command.switches) (named : s.long? = some name)
      (bare : s.takesValue = false) : Word command ("--" ++ name) [.option s none] none
  | equals {s : Switch} {name value : String} (known : s ∈ command.switches) (named : s.long? = some name)
      (valued : s.takesValue = true) :
      Word command ("--" ++ name ++ "=" ++ value) [.option s (some value)] none
  | last {s : Switch} {name : String} (known : s ∈ command.switches) (named : s.long? = some name)
      (valued : s.takesValue = true) : Word command ("--" ++ name) [] (some s)
  | letters {letters : List Char} {items : List Item} {last : Option Switch} (present : letters ≠ [])
      (h : Letters command letters items last) : Word command (String.ofList ('-' :: letters)) items last

/-- `Line command words items`: the words after the name of the command stand for these items. -/
inductive Line (command : CommandName) : List String → List Item → Prop where
  | nil : Line command [] []
  | separator (words : List String) : Line command ("--" :: words) (words.map .positional)
  | word {w : String} {words : List String} {items rest : List Item} (first : Word command w items none)
      (more : Line command words rest) : Line command (w :: words) (items ++ rest)
  | valued {w value : String} {words : List String} {s : Switch} {items rest : List Item}
      (first : Word command w items (some s)) (plain : Plain value) (more : Line command words rest) :
      Line command (w :: value :: words) (items ++ .option s (some value) :: rest)

/-! ## What is delivered -/

/-- The arguments that a command gets of a line with these items. -/
structure Arguments.Carries (command : CommandName) (given : Arguments) (items : List Item) : Prop where
  /-- the first positional goes to `EXPR` -/
  first : given.expr = (Item.positionals items).head?
  /-- the others go to `INPUT`, in their order -/
  others : given.inputs = (Item.positionals items).tail
  /-- there are no more positionals than the command takes -/
  room : ∀ n < (Item.positionals items).length, command.hasRoom n = true
  /-- the file is the one that `-f` gives -/
  file : ∀ path, given.file = some path ↔ .option .file (some path) ∈ items

/-- What is relied on of a reader of command lines. -/
structure Reader.Delivers (read : Reader) : Prop where
  /-- the first word names the command, and the others stand for positionals and options of it -/
  spelled : ∀ {words command given}, read words = .ok (command, given) →
    ∃ name rest items, words = name :: rest ∧ CommandName.ofWord? name = some command ∧ Line command rest items
  /-- the positionals are delivered in order and the first one to `EXPR`, wherever the options stand -/
  inOrder : ∀ {name rest command given items}, read (name :: rest) = .ok (command, given) →
    Line command rest items → given.Carries command items
  /-- after the separator every word is a positional, and options before it are what they are without it -/
  afterSeparator : ∀ {name options command given ps}, read (name :: options) = .ok (command, given) →
    given.expr = none → "--" ∉ options → (∀ n < ps.length, command.hasRoom n = true) →
    read (name :: (options ++ "--" :: ps)) = .ok (command, { given with expr := ps.head?, inputs := ps.tail })

end CommandLine

end RegexNfa
