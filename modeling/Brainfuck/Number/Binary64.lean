import Brainfuck.Number.Ratio

/-!
# Numbers in binary64

The finite magnitudes of the format are numbered in increasing order, starting from zero.
The number of a magnitude is its ordinal. Ordinals come in blocks, and each block shares
one exponent; the first block holds the subnormal magnitudes and has the exponent of the
second. A rounded significand that carries into the next power of two therefore lands on
the right ordinal by addition alone, and overflow is the single comparison with the number
of ordinals.

Rounding takes an exact ratio to the nearest magnitude, a tie going to the even
significand. No machine floating-point operation is used.
-/
namespace Brainfuck

/-- The number of magnitudes in a block: two to the power of 52. -/
abbrev Binary64.blockSize : Nat := 4503599627370496

/-- The number of finite magnitudes. -/
abbrev Binary64.magnitudes : Nat := 2047 * Binary64.blockSize

/-- A number of the binary64 format: the sign of a zero is kept, and the NaNs are one. -/
inductive Binary64 where
  | nan
  | infinity (negative : Bool)
  | finite (negative : Bool) (ordinal : Fin Binary64.magnitudes)
  deriving DecidableEq, Repr

namespace Binary64

/-- A zero with the given sign. -/
def zero (negative : Bool) : Binary64 := .finite negative 0

/-- The integral significand of the magnitude with this ordinal. -/
def significand (ordinal : Nat) : Nat :=
  if ordinal < blockSize then ordinal else blockSize + ordinal % blockSize

/-- The exponent of two that goes with the significand. -/
def exponent (ordinal : Nat) : Int :=
  (max (ordinal / blockSize) 1 : Nat) - 1075

/-- The least exponent of a significand. -/
def minExponent : Int := -1074

/-- The binary64 number nearest to a ratio, with the given sign. -/
def ofRatio (negative : Bool) (q : Ratio) : Binary64 :=
  if q.num = 0 then zero negative
  else
    let e := max (q.floorLog2 - 52) minExponent
    let ordinal := (e - minExponent).toNat * blockSize + (q.timesPow 2 (-e)).round
    if h : ordinal < magnitudes then .finite negative ⟨ordinal, h⟩ else .infinity negative

def ofNat (n : Nat) : Binary64 := ofRatio false (.ofNat n)

def ofInt (z : Int) : Binary64 := ofRatio (decide (z < 0)) (.ofNat z.natAbs)

/-- The exact value of a magnitude. -/
def magnitude (ordinal : Nat) : Ratio :=
  (Ratio.ofNat (significand ordinal)).timesPow 2 (exponent ordinal)

/-- The exact value of a finite number: a numerator with the sign, and a denominator. -/
def value? : Binary64 → Option (Int × Nat)
  | .finite negative ordinal =>
    let q := magnitude ordinal
    some (if negative then -(q.num : Int) else q.num, q.den)
  | _ => none

/-- The value of a number that is an integer. -/
def toInt? (x : Binary64) : Option Int :=
  x.value?.bind fun (n, d) => if n % d = 0 then some (n / d) else none

/-- The greatest integer up to which every integer has a binary64 number of its own: one
less than two to the power of 53. -/
def maxSafeInteger : Nat := 9007199254740991

/-- The value of an integer whose magnitude is at most `maxSafeInteger`. -/
def toSafeInt? (x : Binary64) : Option Int :=
  x.toInt?.filter fun z => z.natAbs ≤ maxSafeInteger

/-- The integer part of a number, toward zero; zero if the number is not finite. -/
def truncate (x : Binary64) : Int :=
  match x.value? with
  | some (n, d) => n.tdiv d
  | none => 0

/-- The least integer that is not below a finite number. -/
def ceil? (x : Binary64) : Option Int :=
  x.value?.map fun (n, d) => -((-n) / d)

/-- Whether a number lies below a natural number. NaN does not. -/
def ltNat (x : Binary64) (n : Nat) : Bool :=
  match x.value? with
  | some (num, den) => num < n * den
  | none => x == .infinity true

/-- The integer nearest to a given one that is a binary64 number. Integers up to two to the
power of 53 are such numbers themselves. -/
def roundInt (z : Int) : Int :=
  if z.natAbs ≤ maxSafeInteger + 1 then z else ((ofInt z).toInt?).getD z

theorem roundInt_of_natAbs_le {z : Int} (h : z.natAbs ≤ maxSafeInteger + 1) :
    roundInt z = z :=
  if_pos h

end Binary64

end Brainfuck
