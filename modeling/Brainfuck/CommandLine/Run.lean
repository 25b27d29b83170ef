import Brainfuck.CodeFrame
import Brainfuck.CommandLine.Arguments
import Brainfuck.Execution

/-!
# A run of the command line

From arguments to an exit code. Nothing is executed, and no input is read, unless the
arguments make sense and the program could be loaded. The quiet switch drops the fault
line, and the frame switch adds a code frame after it; neither affects the execution.

Two errors are not the command line's own and go through to its caller: an execution that
does not start, and a frame that cannot be shown.
-/
namespace Brainfuck

inductive ExitCode where
  | success
  | failure
  deriving DecidableEq, Repr

def ExitCode.toNat : ExitCode → Nat
  | .success => 0
  | .failure => 1

namespace CommandLine

def usage : String :=
  "Usage: bf [options] <file>\n" ++
  "       bf [options] -e <program>\n" ++
  "\n" ++
  "Options:\n" ++
  "  -e, --eval <program>      run <program> instead of reading a file\n" ++
  "  --cell-width <8|16|32>    cell size in bits (env BF_CELL_WIDTH, default 32)\n" ++
  "  --tape-length <n>         number of cells (env BF_TAPE_LENGTH, default 30000)\n" ++
  "  --brackets <scan|table>   bracket matching strategy (env BF_BRACKETS, default scan)\n" ++
  "  -q, --quiet               do not print fault diagnostics\n" ++
  "  --frame                   print the faulting source line after a fault\n" ++
  "  -h, --help                show this help"

variable {m : Type → Type} [Monad m]

def printText (sink : Sink m) (text : String) : m Unit := do
  sink.write (Utf8.encode text)
  sink.flush

def printLine (sink : Sink m) (text : String) : m Unit := printText sink (text ++ "\n")

/-- An error that the command line leaves to its caller. -/
inductive Uncaught where
  | start (error : StartError)
  | frame (error : FrameError)
  deriving DecidableEq, Repr

def Uncaught.message : Uncaught → String
  | .start error => error.message
  | .frame error => error.message

/-- How a run of the command line comes out. The exit code is missing if the program did not
end within its step budget. -/
abbrev Outcome := Except Uncaught (Option ExitCode)

/-- The exit code that a process gives to an outcome: an error is a failure. -/
def Outcome.exitCode : Outcome → Option ExitCode
  | .ok exitCode => exitCode
  | .error _ => some .failure

/-- How a fault comes out that was to be shown. -/
def Outcome.ofFrame : Except FrameError Unit → Outcome
  | .ok () => .ok (some .failure)
  | .error error => .error (.frame error)

/-- Shows a fault in its line of the program. -/
def printFrame (streams : Streams m) (loaded : LoadedProgram) (fault : Fault) :
    m (Except FrameError Unit) := do
  match CodeFrame.renderLine loaded.program fault loaded.name with
  | .ok text =>
    printText streams.log text
    return .ok ()
  | .error error => return .error error

/-- Executes a loaded program as a command asks. -/
@[specialize] def runLoaded [MonadFinally m] (host : Host) (streams : Streams m)
    (command : Command) (loaded : LoadedProgram) (budget : Nat) : m Outcome := do
  let connected := if command.quiet then streams.quiet else streams
  match ← interpret host connected command.settings loaded.program budget with
  | .error error => return .error (.start error)
  | .ok none => return .ok none
  | .ok (some .completed) => return .ok (some .success)
  | .ok (some (.faulted fault)) =>
    if command.frame then return .ofFrame (← printFrame streams loaded fault)
    else return .ok (some .failure)

@[specialize] def run [MonadFinally m] (host : Host) (streams : Streams m)
    (files : FileAccess m) (env : Environment) (arguments : List String) (budget : Nat) :
    m Outcome := do
  match Arguments.parse env arguments with
  | .error error =>
    printLine streams.log s!"error: {error.message}"
    printLine streams.log usage
    return .ok (some .failure)
  | .ok .help =>
    printLine streams.out usage
    return .ok (some .success)
  | .ok (.run command) =>
    match ← command.source.load files with
    | .error error =>
      printLine streams.log s!"error: {error.message}"
      return .ok (some .failure)
    | .ok loaded => runLoaded host streams command loaded budget

end CommandLine

end Brainfuck
