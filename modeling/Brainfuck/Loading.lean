import Brainfuck.FileSystem
import Brainfuck.Number.Shortest
import Brainfuck.Program
import Brainfuck.Text.Quoted

/-!
# Loading programs

A program is given literally or as the path of a file. A file that is larger than the
limit is refused by its reported size, before it is read. A path that holds a null
character names no file and is refused before the system is asked.
-/
namespace Brainfuck

inductive ProgramSource where
  | literal (text : String)
  | file (path : String) (limit : Option Binary64)
  deriving DecidableEq, Repr

/-- A program and the name it goes by in diagnostics. -/
structure LoadedProgram where
  name : String
  program : Program
  deriving DecidableEq, Repr

/-- Why a program file was not loaded. -/
inductive LoadError where
  | notFound (path : String)
  | tooLarge (path : String) (size : Nat) (limit : Binary64)
  | unreadable (path : String) (reason : SystemError)
  | invalidPath (path : String)
  deriving DecidableEq, Repr

namespace LoadError

def path : LoadError → String
  | .notFound path => path
  | .tooLarge path _ _ => path
  | .unreadable path _ => path
  | .invalidPath path => path

/-- The length at which a quoted path is cut off. -/
def maxQuoted : Nat := 128

def message : LoadError → String
  | .notFound path => s!"file not found: {path}"
  | .tooLarge path size limit => s!"file too large: {path} ({size} bytes, limit {limit.text})"
  | .unreadable path reason => s!"cannot read {path}: {reason.message}"
  | .invalidPath path =>
    s!"cannot read {path}: The argument 'path' must be a string, Uint8Array, or URL " ++
      s!"without null bytes. Received {Quoted.abbreviate maxQuoted path}"

/-- The refusal that a failed system call leads to. -/
def ofSystem (path : String) (error : SystemError) : LoadError :=
  match error.errno with
  | .noEntry => .notFound path
  | _ => .unreadable path error

end LoadError

namespace ProgramSource

/-- The size limit unless another is given: one gibibyte. -/
def maxBytes : Nat := 1024 * 1024 * 1024

/-- The name of programs that are given literally. -/
def literalName : String := "<eval>"

def load {m : Type → Type} [Monad m] (files : FileAccess m) :
    ProgramSource → m (Except LoadError LoadedProgram)
  | .literal text => pure (.ok ⟨literalName, Program.ofText text⟩)
  | .file path limit => do
    if path.toList.contains '\x00' then return .error (.invalidPath path)
    match ← files.size path with
    | .error error => return .error (.ofSystem path error)
    | .ok size =>
      let limit := limit.getD (.ofNat maxBytes)
      if limit.ltNat size then return .error (.tooLarge path size limit)
      match ← files.contents path with
      | .error error => return .error (.ofSystem path error)
      | .ok contents => return .ok ⟨path, Program.ofBytes contents⟩

end ProgramSource

end Brainfuck
