import Brainfuck.Fault
import Brainfuck.Location
import Brainfuck.Text.Utf16
import Brainfuck.Text.Utf8

/-!
# Code frames

A fault shown in its line of the program, with a caret under the faulting column:

    prog.bf:2:4 error: missing opening bracket for closing bracket at char 9
    2 | ++-]
      |    ^

The line is shown as text without its line end. The caret is indented by octets, so it
stands to the right of its character when longer characters come before it. A position
before the program has no column to indent to and no frame. Neither has a position in a
line that is too long to be decoded, or whose frame would be longer than any text.
-/
namespace Brainfuck

/-- Why a fault cannot be shown. -/
inductive FrameError where
  /-- The caret would stand before the first column. -/
  | negativeIndent (count : Int)
  /-- The line has more octets than are decoded at once. -/
  | longLine
  /-- The frame would be longer than any text. -/
  | tooLong
  deriving DecidableEq, Repr

def FrameError.message : FrameError → String
  | .negativeIndent count => s!"Invalid count value: {integerText count}"
  | .longLine => "Cannot create a string longer than 0x1fffffe8 characters"
  | .tooLong => "Invalid string length"

namespace CodeFrame

/-- The octets without one trailing octet of the given kind. -/
def chop (last : UInt8) (bytes : List UInt8) : List UInt8 :=
  if bytes.getLast? = some last then bytes.dropLast else bytes

/-- The octets of a line, without its newline and without a carriage return before that. -/
def lineOctets (p : Program) (index : LineIndex) (line : Nat) : List UInt8 :=
  let stop := index.starts[line + 1]?.getD p.size
  chop 13 (chop newline (p.bytes.extract (index.start line) stop).toList)

/-- The text of some octets, which may not be more than the units of a text. -/
def decode (bytes : List UInt8) : Except FrameError String :=
  if bytes.length ≤ Utf16.maxLength then .ok (Utf8.decode bytes) else .error .longLine

/-- A text, unless it is longer than any text. -/
def fit (text : String) : Except FrameError String :=
  if Utf16.length text.toList ≤ Utf16.maxLength then .ok text else .error .tooLong

theorem decode_eq_ok_iff {bytes : List UInt8} {text : String} :
    decode bytes = .ok text ↔ bytes.length ≤ Utf16.maxLength ∧ text = Utf8.decode bytes := by
  unfold decode
  split <;> simp [*, eq_comm]

theorem fit_eq_ok_iff {text result : String} :
    fit text = .ok result ↔ Utf16.length text.toList ≤ Utf16.maxLength ∧ result = text := by
  unfold fit
  split <;> simp [*, eq_comm]

def spaces (count : Nat) : String := String.ofList (List.replicate count ' ')

/-- As many spaces as a number says. -/
def indentation (count : Int) : Except FrameError String :=
  if count < 0 then .error (.negativeIndent count)
  else if Utf16.maxLength < count.toNat then .error .tooLong
  else .ok (spaces count.toNat)

theorem indentation_natCast_eq_ok_iff {count : Nat} {result : String} :
    indentation count = .ok result ↔ count ≤ Utf16.maxLength ∧ result = spaces count := by
  unfold indentation
  rw [if_neg (by omega), Int.toNat_natCast]
  split
  next hlong => simp only [reduceCtorEq, false_iff]; omega
  next hfits => simp only [Except.ok.injEq, Nat.le_of_not_lt hfits, true_and, eq_comm]

/-- The frame of a fault in a program of the given name. -/
def render (p : Program) (fault : Fault) (name : String) : Except FrameError String := do
  let index := LineIndex.ofProgram p
  let location := index.locate fault.position
  let number := toString location.line
  let heading ← fit s!"{name}:{number}:{integerText location.column} error: {fault.describe}"
  let text ← decode (lineOctets p index (location.line - 1))
  let shown ← fit s!"{number} | {text}"
  let indent ← indentation (Binary64.roundInt (location.column - 1))
  let caret ← fit s!"{spaces number.length} | {indent}^"
  fit ("\n".intercalate [heading, shown, caret])

/-- The frame of a fault with a newline behind it. -/
def renderLine (p : Program) (fault : Fault) (name : String) : Except FrameError String := do
  let frame ← render p fault name
  fit (frame ++ "\n")

end CodeFrame

end Brainfuck
