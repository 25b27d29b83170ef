import Brainfuck.Loading
import Brainfuck.Options

/-!
# Arguments

The arguments of the command line are read from left to right, each in the light of those
before it. Reading ends early at a request for help and at the first argument that makes
no sense where it stands. A flag that takes a value takes it from its own argument, after
an equals sign, or from the next argument, whatever that looks like. A flag that takes no
value ignores one that is joined to it.

Flags win over the environment, which wins over the defaults.
-/
namespace Brainfuck

/-- What is wrong with the arguments. -/
inductive UsageError where
  | missingValue (flag : String)
  | repeatedFlag (flag : String)
  | invalidValue (error : ConfigError)
  | unknownFlag (flag : String)
  | unexpectedArgument (argument : String)
  | twoPrograms
  | noProgram
  deriving DecidableEq, Repr

def UsageError.message : UsageError → String
  | .missingValue flag => s!"missing value for {flag}"
  | .repeatedFlag flag => s!"{flag} given more than once"
  | .invalidValue error => error.message
  | .unknownFlag flag => s!"unknown option: {flag}"
  | .unexpectedArgument argument => s!"unexpected argument: {argument}"
  | .twoPrograms => "give either a file or -e <program>, not both"
  | .noProgram => "no program given"

/-- A program to run and how. -/
structure Command where
  source : ProgramSource
  settings : Settings
  quiet : Bool
  frame : Bool
  deriving DecidableEq, Repr

/-- What the arguments ask for. -/
inductive Request where
  | help
  | run (command : Command)
  deriving DecidableEq, Repr

namespace Arguments

inductive Switch where
  | help
  | quiet
  | frame
  deriving DecidableEq, Repr

inductive ValueFlag where
  | eval
  | cellWidth
  | tapeLength
  | brackets
  deriving DecidableEq, Repr

def Switch.ofText? (flag : String) : Option Switch :=
  if flag = "-h" ∨ flag = "--help" then some .help
  else if flag = "-q" ∨ flag = "--quiet" then some .quiet
  else if flag = "--frame" then some .frame
  else none

def ValueFlag.ofText? (flag : String) : Option ValueFlag :=
  if flag = "-e" ∨ flag = "--eval" then some .eval
  else if flag = "--cell-width" then some .cellWidth
  else if flag = "--tape-length" then some .tapeLength
  else if flag = "--brackets" then some .brackets
  else none

/-- Splits an argument that starts with two dashes at its first equals sign, if it has
one, into a flag and the value joined to it. -/
def split (argument : String) : String × Option String :=
  match argument.toList with
  | '-' :: '-' :: name =>
    match name.dropWhile (· != '=') with
    | '=' :: value =>
      (String.ofList ('-' :: '-' :: name.takeWhile (· != '=')), some (String.ofList value))
    | _ => (argument, none)
  | _ => (argument, none)

/-- Whether an argument names a file: it does not start with a dash, or is a dash. -/
def isPositional (argument : String) : Bool :=
  argument.toList.head? != some '-' || argument == "-"

/-- What the arguments so far have asked for. -/
structure Draft where
  settings : Settings := .empty
  literal : Option String := none
  file : Option String := none
  quiet : Bool := false
  frame : Bool := false
  deriving DecidableEq, Repr

/-- Takes a flag and its value into account; `spelling` is the flag as it was written. -/
def Draft.take (draft : Draft) (flag : ValueFlag) (spelling value : String) :
    Except UsageError Draft :=
  let option {α : Type} (parsed : Except ConfigError α) (set : α → Settings → Settings) :
      Except UsageError Draft :=
    match parsed with
    | .ok a => .ok { draft with settings := set a draft.settings }
    | .error error => .error (.invalidValue error)
  match flag with
  | .eval =>
    match draft.literal with
    | some _ => .error (.repeatedFlag spelling)
    | none => .ok { draft with literal := some value }
  | .cellWidth => option (parseCellWidth value) Settings.withCellWidth
  | .tapeLength => option (parseTapeLength value) Settings.withTapeLength
  | .brackets => option (parseBrackets value) Settings.withBrackets

/-- Takes an argument that is no flag with a value and no switch into account. -/
def Draft.takePlain (draft : Draft) (flag argument : String) : Except UsageError Draft :=
  if isPositional flag then
    match draft.file with
    | some _ => .error (.unexpectedArgument argument)
    | none => .ok { draft with file := some argument }
  else .error (.unknownFlag flag)

/-- Reads the arguments from left to right; `none` if they ask for help. -/
def read (draft : Draft) : List String → Except UsageError (Option Draft)
  | [] => .ok (some draft)
  | argument :: rest =>
    let (flag, joined) := split argument
    match Switch.ofText? flag, ValueFlag.ofText? flag with
    | some .help, _ => .ok none
    | some .quiet, _ => read { draft with quiet := true } rest
    | some .frame, _ => read { draft with frame := true } rest
    | none, some valueFlag =>
      match joined, rest with
      | some value, rest =>
        match draft.take valueFlag flag value with
        | .ok draft => read draft rest
        | .error error => .error error
      | none, value :: rest =>
        match draft.take valueFlag flag value with
        | .ok draft => read draft rest
        | .error error => .error error
      | none, [] => .error (.missingValue flag)
    | none, none =>
      match draft.takePlain flag argument with
      | .ok draft => read draft rest
      | .error error => .error error

/-- The program that the arguments have asked for. -/
def Draft.source (draft : Draft) : Except UsageError ProgramSource :=
  match draft.literal, draft.file with
  | some _, some _ => .error .twoPrograms
  | some text, none => .ok (.literal text)
  | none, some path => .ok (.file path none)
  | none, none => .error .noProgram

/-- What the arguments and the environment ask for. -/
def parse (env : Environment) (arguments : List String) : Except UsageError Request :=
  match read {} arguments with
  | .error error => .error error
  | .ok none => .ok .help
  | .ok (some draft) =>
    match draft.source with
    | .error error => .error error
    | .ok source =>
      .ok (.run
        { source
          settings := draft.settings.orElse (.ofEnvironment env)
          quiet := draft.quiet
          frame := draft.frame })

end Arguments

end Brainfuck
