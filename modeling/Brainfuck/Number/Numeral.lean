import Brainfuck.Number.Binary64
import Brainfuck.Text.Blank

/-!
# Written numbers

The grammar of a number on the command line: blanks on either side are ignored, and what
remains is one of

* nothing, which is zero;
* `Infinity` with an optional sign;
* `0x`, `0o` or `0b`, in either case and without a sign, and at least one digit;
* an optional sign, decimal digits with an optional point, at least one digit in all, and
  an optional exponent `e` or `E` with an optional sign and at least one digit.

A numeral keeps the exact value that was written. Rounding to binary64 is a second step.
-/
namespace Brainfuck

/-- The exact value of a written number: an infinity or `±coefficient × 10 ^ exponent`. -/
inductive Numeral where
  | infinity (negative : Bool)
  | decimal (negative : Bool) (coefficient : Nat) (exponent : Int)
  deriving DecidableEq, Repr

namespace Numeral

/-- The value of a digit of a radix up to sixteen. -/
def digit? (radix : Nat) (c : Char) : Option Nat :=
  let value? :=
    if '0' ≤ c ∧ c ≤ '9' then some (c.toNat - '0'.toNat)
    else if 'a' ≤ c ∧ c ≤ 'f' then some (c.toNat - 'a'.toNat + 10)
    else if 'A' ≤ c ∧ c ≤ 'F' then some (c.toNat - 'A'.toNat + 10)
    else none
  value?.filter (· < radix)

/-- The number written by a run of digits, most significant first. -/
def ofDigits (radix : Nat) (cs : List Char) : Nat :=
  cs.foldl (fun n c => n * radix + (digit? radix c).getD 0) 0

/-- Whether the characters are a nonempty run of digits. -/
def isDigits (radix : Nat) (cs : List Char) : Bool :=
  !cs.isEmpty && cs.all fun c => (digit? radix c).isSome

/-- The nonempty run of digits that the characters are. -/
def digits? (radix : Nat) (cs : List Char) : Option Nat :=
  if isDigits radix cs then some (ofDigits radix cs) else none

/-- Splits off a sign; `true` is a minus. -/
def sign : List Char → Bool × List Char
  | '-' :: cs => (true, cs)
  | '+' :: cs => (false, cs)
  | cs => (false, cs)

/-- The exponent part of a decimal, which may be missing. -/
def exponent? : List Char → Option Int
  | [] => some 0
  | c :: cs =>
    if c = 'e' ∨ c = 'E' then
      let (negative, cs) := sign cs
      (digits? 10 cs).map fun n => if negative then -(n : Int) else n
    else none

/-- A decimal without its sign. -/
def unsigned? (negative : Bool) (cs : List Char) : Option Numeral :=
  let isDigit := fun c => (digit? 10 c).isSome
  let whole := cs.takeWhile isDigit
  let rest := cs.dropWhile isDigit
  let (fraction, rest) :=
    match rest with
    | '.' :: rest => (rest.takeWhile isDigit, rest.dropWhile isDigit)
    | rest => ([], rest)
  if whole.isEmpty && fraction.isEmpty then none
  else
    (exponent? rest).map fun e =>
      .decimal negative (ofDigits 10 (whole ++ fraction)) (e - fraction.length)

/-- The radix that a leading pair of characters announces. -/
def radix? (zero mark : Char) : Option Nat :=
  if zero ≠ '0' then none
  else if mark = 'x' ∨ mark = 'X' then some 16
  else if mark = 'o' ∨ mark = 'O' then some 8
  else if mark = 'b' ∨ mark = 'B' then some 2
  else none

/-- A number without surrounding blanks. -/
def bare? (cs : List Char) : Option Numeral :=
  let signed := fun (cs : List Char) =>
    let (negative, cs) := sign cs
    if cs = "Infinity".toList then some (.infinity negative) else unsigned? negative cs
  match cs with
  | [] => some (.decimal false 0 0)
  | zero :: mark :: cs =>
    match radix? zero mark with
    | some radix => (digits? radix cs).map (.decimal false · 0)
    | none => signed (zero :: mark :: cs)
  | cs => signed cs

/-- The number that a text writes, if it writes one. -/
def parse? (text : String) : Option Numeral :=
  bare? (Text.trim text.toList)

/-- The binary64 number nearest to the written one. A coefficient of `k` binary digits has
at most `k` decimal ones, so exponents far outside the format are decided before any power
is formed. -/
def round : Numeral → Binary64
  | .infinity negative => .infinity negative
  | .decimal negative coefficient exponent =>
    if coefficient = 0 then .zero negative
    else if 400 < exponent then .infinity negative
    else if exponent + coefficient.log2 < -401 then .zero negative
    else .ofRatio negative ((Ratio.ofNat coefficient).timesPow 10 exponent)

end Numeral

/-- The number that a text stands for; a text that writes none stands for NaN. -/
def Binary64.ofText (text : String) : Binary64 :=
  match Numeral.parse? text with
  | some numeral => numeral.round
  | none => .nan

end Brainfuck
