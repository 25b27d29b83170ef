import Brainfuck.Number.Binary64

/-!
# Shortest decimal text

The text of a binary64 number in a diagnostic. It has the fewest significant digits that
read back as the same number; of two such decimals it takes the nearer, and of two equally
near the even one. For each number of digits only the two grid points around the value
have to be tried, since a grid point that reads back lies no nearer than one of them.
-/
namespace Brainfuck

/-- The positive decimal `coefficient × 10 ^ exponent`. -/
structure Decimal where
  coefficient : Nat
  exponent : Int
  deriving DecidableEq, Repr

namespace Decimal

def value (d : Decimal) : Ratio := (Ratio.ofNat d.coefficient).timesPow 10 d.exponent

/-- Whether a decimal rounds to the magnitude with this ordinal. -/
def readsAs (d : Decimal) (ordinal : Fin Binary64.magnitudes) : Bool :=
  Binary64.ofRatio false d.value == .finite false ordinal

/-- The position of the decimal point relative to the first significant digit of a
positive ratio: the least `p` such that the ratio is below ten to the power of `p`.
The format has no magnitude with more than 400 zeros behind the point. -/
def point (q : Ratio) : Int :=
  if q.den ≤ q.num then (Nat.toDigits 10 (q.num / q.den)).length
  else
    let leading := (List.range 400).find? fun k => q.den ≤ q.num * Nat.pow 10 (k + 1)
    Int.negOfNat (leading.getD 400)

/-- The best decimal with the given number of digits that reads back as the magnitude. -/
def candidate? (ordinal : Fin Binary64.magnitudes) (digits : Nat) : Option Decimal :=
  let q := Binary64.magnitude ordinal
  let e := point q - digits
  let scaled := q.timesPow 10 (-e)
  let below : Decimal := ⟨scaled.num / scaled.den, e⟩
  let above : Decimal := ⟨scaled.num / scaled.den + 1, e⟩
  match below.readsAs ordinal, above.readsAs ordinal with
  | true, true => some ⟨scaled.round, e⟩
  | true, false => some below
  | false, true => some above
  | false, false => none

/-- The shortest decimal of a positive magnitude. Seventeen digits always suffice. -/
def shortest (ordinal : Fin Binary64.magnitudes) : Decimal :=
  ((List.range 17).findSome? fun k => candidate? ordinal (k + 1)).getD ⟨0, 0⟩

/-- The significant digits of a decimal without zeros at the end. -/
def significantDigits (d : Decimal) : List Char :=
  ((Nat.toDigits 10 d.coefficient).reverse.dropWhile (· == '0')).reverse

/-- A decimal in positional notation where its point stands between `-5` and `21` places
after the first digit, and with an exponent otherwise. -/
def layout (d : Decimal) : String :=
  let digits := significantDigits d
  let k := digits.length
  let n : Int := (Nat.toDigits 10 d.coefficient).length + d.exponent
  let zeros := fun (count : Int) => List.replicate count.toNat '0'
  if k ≤ n ∧ n ≤ 21 then String.ofList (digits ++ zeros (n - k))
  else if 0 < n ∧ n ≤ 21 then
    String.ofList (digits.take n.toNat ++ '.' :: digits.drop n.toNat)
  else if -6 < n ∧ n ≤ 0 then String.ofList ('0' :: '.' :: (zeros (-n) ++ digits))
  else
    let mantissa :=
      match digits with
      | first :: second :: more => first :: '.' :: second :: more
      | short => short
    let e := n - 1
    String.ofList (mantissa ++ 'e' :: (if e < 0 then '-' else '+') :: Nat.toDigits 10 e.natAbs)

end Decimal

/-- The text of a number; both zeros are written alike. -/
def Binary64.text : Binary64 → String
  | .nan => "NaN"
  | .infinity negative => if negative then "-Infinity" else "Infinity"
  | .finite negative ordinal =>
    if ordinal.val = 0 then "0"
    else (if negative then "-" else "") ++ (Decimal.shortest ordinal).layout

/-- The text of an integer that counts positions. It is written in full as long as all
integers of its magnitude are binary64 numbers, and as the nearest such number otherwise. -/
def integerText (z : Int) : String :=
  if z.natAbs ≤ Binary64.maxSafeInteger then toString z else (Binary64.ofInt z).text

/-- Natural numbers up to the bound are written in full. -/
theorem integerText_natCast {n : Nat} (h : n ≤ Binary64.maxSafeInteger) :
    integerText n = toString n := by
  rw [integerText, if_pos (by omega)]
  rfl

end Brainfuck
