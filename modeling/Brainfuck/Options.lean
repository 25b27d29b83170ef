import Brainfuck.Bracket.Strategy
import Brainfuck.Number.Numeral
import Brainfuck.Number.Shortest

/-!
# Options

Settings are what a caller asks for: each member may be missing, and the numbers are any
binary64 numbers. Options are what an execution runs with: a positive tape length, one of
three cell widths and a bracket strategy. Resolving settings fills in the defaults and
rejects, in this order, a bad tape length, a bad cell width and an unknown strategy.

Settings also come as text, from the command line and from the environment. A text is
judged on its own, before it becomes a member of the settings.
-/
namespace Brainfuck

open Brainfuck.Bracket (Strategy)

inductive CellWidth where
  | bits8
  | bits16
  | bits32
  deriving DecidableEq, Repr

namespace CellWidth

/-- All cell widths, in increasing order. -/
def all : List CellWidth := [.bits8, .bits16, .bits32]

def bits : CellWidth → Nat
  | .bits8 => 8
  | .bits16 => 16
  | .bits32 => 32

def ofInt? (z : Int) : Option CellWidth :=
  if z = 8 then some .bits8
  else if z = 16 then some .bits16
  else if z = 32 then some .bits32
  else none

@[simp] theorem ofInt?_bits (width : CellWidth) : ofInt? width.bits = some width := by
  cases width <;> rfl

def ofNumber? (x : Binary64) : Option CellWidth := x.toInt?.bind ofInt?

end CellWidth

/-- The tape length that a number gives: a positive integer small enough that all
integers up to it are distinct numbers. -/
def tapeLength? (x : Binary64) : Option Nat :=
  (x.toSafeInt?.filter (0 < ·)).map Int.toNat

/-- What an execution runs with. -/
structure Options where
  tapeLength : Nat
  cellWidth : CellWidth
  brackets : Strategy
  deriving DecidableEq, Repr

/-- The number of cells unless another is asked for. -/
def defaultTapeLength : Nat := 30000

/-- The options of an execution for which nothing is asked. -/
def Options.default : Options := ⟨defaultTapeLength, .bits32, .scan⟩

/-- A value that no option takes, kept as it was given. -/
inductive ConfigError where
  | tapeLength (value : String)
  | cellWidth (value : String)
  | brackets (value : String)
  deriving DecidableEq, Repr

namespace ConfigError

def value : ConfigError → String
  | .tapeLength value => value
  | .cellWidth value => value
  | .brackets value => value

def message : ConfigError → String
  | .tapeLength value => s!"invalid tape length: {value} (expected a positive integer)"
  | .cellWidth value => s!"invalid cell width: {value} (expected 8, 16 or 32)"
  | .brackets value => s!"invalid bracket strategy: {value} (expected scan or table)"

end ConfigError

def parseTapeLength (text : String) : Except ConfigError Nat :=
  match tapeLength? (Binary64.ofText text) with
  | some n => .ok n
  | none => .error (.tapeLength text)

def parseCellWidth (text : String) : Except ConfigError CellWidth :=
  match CellWidth.ofNumber? (Binary64.ofText text) with
  | some width => .ok width
  | none => .error (.cellWidth text)

def parseBrackets (text : String) : Except ConfigError Strategy :=
  match Strategy.ofName? text with
  | some strategy => .ok strategy
  | none => .error (.brackets text)

/-- What a caller asks for. -/
structure Settings where
  tapeLength : Option Binary64 := none
  cellWidth : Option Binary64 := none
  brackets : Option String := none
  deriving DecidableEq, Repr

namespace Settings

def empty : Settings := {}

def withTapeLength (n : Nat) (s : Settings) : Settings :=
  { s with tapeLength := some (.ofNat n) }

def withCellWidth (width : CellWidth) (s : Settings) : Settings :=
  { s with cellWidth := some (.ofNat width.bits) }

def withBrackets (strategy : Strategy) (s : Settings) : Settings :=
  { s with brackets := some strategy.name }

/-- The members of the first settings where it has them, and of the second elsewhere. -/
def orElse (first second : Settings) : Settings where
  tapeLength := first.tapeLength <|> second.tapeLength
  cellWidth := first.cellWidth <|> second.cellWidth
  brackets := first.brackets <|> second.brackets

def askedTapeLength (s : Settings) : Except ConfigError Nat :=
  match s.tapeLength with
  | none => .ok Options.default.tapeLength
  | some x =>
    match tapeLength? x with
    | some n => .ok n
    | none => .error (.tapeLength x.text)

def askedCellWidth (s : Settings) : Except ConfigError CellWidth :=
  match s.cellWidth with
  | none => .ok Options.default.cellWidth
  | some x =>
    match CellWidth.ofNumber? x with
    | some width => .ok width
    | none => .error (.cellWidth x.text)

def askedBrackets (s : Settings) : Except ConfigError Strategy :=
  match s.brackets with
  | none => .ok Options.default.brackets
  | some text => parseBrackets text

/-- The options that settings ask for, or the first value that is refused. -/
def resolve (s : Settings) : Except ConfigError Options := do
  let tapeLength ← s.askedTapeLength
  let cellWidth ← s.askedCellWidth
  let brackets ← s.askedBrackets
  return ⟨tapeLength, cellWidth, brackets⟩

theorem resolve_eq_ok_iff {s : Settings} {options : Options} :
    s.resolve = .ok options ↔
      s.askedTapeLength = .ok options.tapeLength ∧ s.askedCellWidth = .ok options.cellWidth ∧
        s.askedBrackets = .ok options.brackets := by
  obtain ⟨tapeLength, cellWidth, brackets⟩ := options
  unfold resolve
  cases s.askedTapeLength with
  | error error => simp [bind, Except.bind]
  | ok n =>
    cases s.askedCellWidth with
    | error error => simp [bind, Except.bind]
    | ok width =>
      cases s.askedBrackets <;> simp [bind, Except.bind, pure, Except.pure]

end Settings

/-- The environment: the value of each variable that is set. -/
abbrev Environment := String → Option String

def Environment.names : List String := ["BF_TAPE_LENGTH", "BF_CELL_WIDTH", "BF_BRACKETS"]

/-- The environment with the given values; the first value of a variable counts. -/
def Environment.ofList (values : List (String × Option String)) : Environment :=
  fun name => (values.lookup name).join

/-- The value that an environment variable gives, if it is set to a text that one accepts. -/
def Environment.given {α : Type} (env : Environment) (name : String)
    (parse : String → Except ConfigError α) : Option α :=
  (env name).bind fun text => (parse text).toOption

/-- The settings that the environment asks for. A variable whose value no option takes is
left out, as if it were not set. -/
def Settings.ofEnvironment (env : Environment) : Settings where
  tapeLength := (env.given "BF_TAPE_LENGTH" parseTapeLength).map Binary64.ofNat
  cellWidth := (env.given "BF_CELL_WIDTH" parseCellWidth).map fun width => .ofNat width.bits
  brackets := (env.given "BF_BRACKETS" parseBrackets).map Strategy.name

end Brainfuck
