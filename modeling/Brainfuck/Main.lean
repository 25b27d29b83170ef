import Brainfuck.Console

/-!
# The executable

Connects the console to the standard streams of the process, its environment and its
files, and turns the exit code into a number. All decisions are made by the command line.
-/
namespace Brainfuck.Executable

/-- The system error that an exception of the process stands for. -/
def systemError (call : String) (path : Option String) (e : IO.Error) : SystemError :=
  let errno : Errno :=
    match e with
    | .noFileOrDirectory _ _ _ => .noEntry
    | .permissionDenied _ _ _ => .accessDenied
    | .inappropriateType _ _ _ => .isDirectory
    | _ => .inputOutput
  { errno, call, path }

/-- Carries out a system call and returns its failure as a value. -/
def attempt {α : Type} (call : String) (path : Option String) (x : IO α) :
    BaseIO (Except SystemError α) := do
  match ← x.toBaseIO with
  | .ok a => pure (.ok a)
  | .error e => pure (.error (systemError call path e))

/-- Offers bytes to an output stream of the process, which accepts all of them. -/
def offer (stream : IO.FS.Stream) : Offer SystemError BaseIO := fun offered h => do
  let outcome ← attempt "write" none do
    stream.write ⟨offered.toArray⟩
    stream.flush
  pure (outcome.map fun _ => Accepted.everything h)

/-- The system calls on the standard streams. -/
def system (stdin stdout stderr : IO.FS.Stream) : ConsoleSystem SystemError BaseIO where
  fetch := attempt "read" none do
    return (← stdin.read (USize.ofNat BlockReader.blockSize)).toList
  output := offer stdout
  errors := offer stderr

abbrev Hosted := ExceptT SystemError (StateT (Console SystemError) BaseIO)

def contents (call path : String) : BaseIO (Except SystemError (List UInt8)) :=
  attempt call (some path) do return (← IO.FS.readBinFile path).toList

/-- The files of the process. The size of a file is that of its contents. -/
def files : FileAccess Hosted where
  size path := liftM (m := BaseIO) do return (← contents "stat" path).map List.length
  contents path := liftM (m := BaseIO) (contents "read" path)

/-- The memory that a process can have for its tape: sixteen gibibytes. -/
def host : Host := .upTo 17179869184

/-- More steps than a process can take. -/
def budget : Nat := 1000000000000000000

end Brainfuck.Executable

open Brainfuck Executable in
def main (arguments : List String) : IO UInt32 := do
  let stdout ← IO.getStdout
  let system := system (← IO.getStdin) stdout (← IO.getStderr)
  let values ← Environment.names.mapM fun name => do return (name, ← IO.getEnv name)
  let process : Hosted CommandLine.Outcome :=
    CommandLine.run host (Console.streams system) files (.ofList values) arguments budget
  let (outcome, _) ← process.run.run (.initial (← stdout.isTty))
  match outcome with
  | .ok outcome =>
    if let .error error := outcome then IO.eprintln error.message
    return UInt32.ofNat (outcome.exitCode.getD .failure).toNat
  | .error error =>
    IO.eprintln error.message
    return 1
