import RegexNfa.CommandLine.Reading

/-!
# Plans

What a run reads, in which order, and what it makes of it, without doing any of it.  A plan is either
done, or waits for the bytes of a file or of standard input, or to be told where its output goes.
`Plan.runIn` carries it out in a world where all this is given; the program itself carries it out in the
real one.
-/

namespace RegexNfa

namespace CommandLine

inductive Plan (α : Type) where
  | done (result : α)
  | readFile (path : String) (next : Except SystemError ByteArray → Plan α)
  | readStdin (next : Except SystemError ByteArray → Plan α)
  | askTerminals (next : Terminals → Plan α)

namespace Plan

variable {α β : Type}

/-- One plan after another. -/
def andThen (p : Plan α) (f : α → Plan β) : Plan β :=
  match p with
  | done a => f a
  | readFile path next => readFile path fun bytes => (next bytes).andThen f
  | readStdin next => readStdin fun bytes => (next bytes).andThen f
  | askTerminals next => askTerminals fun terminals => (next terminals).andThen f

instance : Monad Plan where
  pure := done
  bind := andThen

end Plan

/-! ## Files -/

/-- A directory given by the files in it; a slash in a name leads into a directory below. -/
structure Directory where
  files : List (String × ByteArray)

namespace Directory

/-- The parts of a path. -/
def parts (path : String) : List String :=
  path.splitOn "/"

/-- The bytes of the file at a place, if a file is there. -/
def fileAt? (d : Directory) (place : List String) : Option ByteArray :=
  (d.files.find? fun file => parts file.1 = place).map Prod.snd

/-- Whether a file or a directory is at a place. -/
def holds (d : Directory) (place : List String) : Bool :=
  d.files.any fun file => place.isPrefixOf (parts file.1)

/-- The longest name of a file or a directory, in bytes. -/
def nameLimit : Nat := 255

/-- The longest path, in bytes. -/
def pathLimit : Nat := 4095

/-- What a path reads that goes on from `here`.  Outside the directory, where `here` is `none`, there are
directories only. -/
def readFrom (d : Directory) (here : Option (List String)) : List String → Except SystemError ByteArray
  | [] =>
    match here.bind d.fileAt? with
    | some bytes => .ok bytes
    | none => .error .isDirectory
  | part :: rest =>
    if (here.bind d.fileAt?).isSome then .error .notDirectory
    else if part = "" || part = "." then d.readFrom here rest
    else if part = ".." then
      d.readFrom (here.bind fun place => if place.isEmpty then none else some place.dropLast) rest
    else if nameLimit < part.utf8ByteSize then .error .nameTooLong
    else
      match here with
      | none => .error .noSuchFile
      | some place =>
        if d.holds (place ++ [part]) then d.readFrom (some (place ++ [part])) rest
        else .error .noSuchFile

/-- What reading a path gives. -/
def read (d : Directory) (path : String) : Except SystemError ByteArray :=
  if path.isEmpty then .error .noSuchFile
  else if pathLimit < path.utf8ByteSize then .error .nameTooLong
  else d.readFrom (if path.startsWith "/" then none else some []) (parts path)

end Directory

/-- What a run finds around it, standard input apart. -/
structure Surroundings where
  /-- the files there are if nothing else is said of `read` -/
  directory : Directory := ⟨[]⟩
  /-- what reading a path gives, which may be anything -/
  read : String → Except SystemError ByteArray := directory.read
  terminals : Terminals := {}

/-- All that a run can find out. -/
structure World extends Surroundings where
  stdin : ByteArray

/-- Carries a plan out. -/
def Plan.runIn {α : Type} (w : World) : Plan α → α
  | done a => a
  | readFile path next => (next (w.read path)).runIn w
  | readStdin next => (next (.ok w.stdin)).runIn w
  | askTerminals next => (next w.terminals).runIn w

theorem Plan.runIn_bind {α β : Type} (w : World) (p : Plan α) (f : α → Plan β) :
    (p >>= f).runIn w = (f (p.runIn w)).runIn w := by
  induction p with
  | done a => rfl
  | readFile path next ih => exact ih _
  | readStdin next ih => exact ih _
  | askTerminals next ih => exact ih _

end CommandLine

end RegexNfa
