import RegexNfa.CommandLine.Program

/-!
# The executable

Carries the program's plan out: reads the files and the standard input that it asks for, finds out where
its output goes, writes it and leaves with its exit status.
-/

namespace RegexNfa

namespace CommandLine

/-- An error of reading, in the terms of the operating system.  Opening a file reports its number negated,
reading from one reports it as it is. -/
def SystemError.ofIO (e : IO.Error) : SystemError :=
  match e with
  | .noFileOrDirectory .. => noSuchFile
  | .inappropriateType _ code _ => if code = 20 ∨ code = 0 - 20 then notDirectory else isDirectory
  | .invalidArgument _ code _ =>
    if code = 36 ∨ code = 0 - 36 then nameTooLong else ⟨22, "Invalid argument"⟩
  | .permissionDenied .. => ⟨13, "Permission denied"⟩
  | e => ⟨5, toString e⟩

def readBytes (read : IO ByteArray) : IO (Except SystemError ByteArray) := do
  match ← read.toBaseIO with
  | .ok bytes => return .ok bytes
  | .error e => return .error (.ofIO e)

def Plan.perform : Plan Outcome → IO Outcome
  | done outcome => return outcome
  | readFile path next => do
    let bytes ← readBytes (IO.FS.readBinFile path)
    (next bytes).perform
  | readStdin next => do
    let stdin ← IO.getStdin
    let bytes ← readBytes stdin.readBinToEnd
    (next bytes).perform
  | askTerminals next => do
    let stdout ← IO.getStdout
    let stderr ← IO.getStderr
    (next { stdout := ← stdout.isTty, stderr := ← stderr.isTty }).perform

end CommandLine

end RegexNfa

def main (words : List String) : IO UInt32 := do
  let outcome ← (RegexNfa.CommandLine.program words).perform
  let stdout ← IO.getStdout
  let stderr ← IO.getStderr
  stdout.putStr outcome.stdout
  stdout.flush
  stderr.putStr outcome.stderr
  return UInt32.ofNat outcome.exit
