/-!
# Ratios of natural numbers

Exact values are ratios of two natural numbers with a positive denominator. A power of
two or ten goes into the numerator or the denominator according to the sign of its
exponent, so nothing is rounded until a ratio is rounded as a whole.
-/
namespace Brainfuck

structure Ratio where
  num : Nat
  den : Nat
  deriving DecidableEq, Repr

namespace Ratio

def ofNat (n : Nat) : Ratio := ⟨n, 1⟩

/-- The ratio times a power of the base. -/
def timesPow (base : Nat) (q : Ratio) (e : Int) : Ratio :=
  if 0 ≤ e then ⟨q.num * Nat.pow base e.toNat, q.den⟩
  else ⟨q.num, q.den * Nat.pow base (-e).toNat⟩

/-- The nearest natural number, a half going to the even neighbour. -/
def round (q : Ratio) : Nat :=
  let whole := q.num / q.den
  let twice := 2 * (q.num % q.den)
  if twice < q.den then whole
  else if q.den < twice then whole + 1
  else whole + whole % 2

/-- The greatest `l` such that a positive ratio is at least two to the power of `l`.
The lengths of numerator and denominator give it up to one. -/
def floorLog2 (q : Ratio) : Int :=
  let l : Int := (q.num.log2 : Int) - q.den.log2
  let scaled := q.timesPow 2 (-l)
  if scaled.den ≤ scaled.num then l else l - 1

end Ratio

end Brainfuck
