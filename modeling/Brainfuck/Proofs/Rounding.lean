import Brainfuck.Number.Numeral
import Brainfuck.Proofs.WholeNumbers
import Mathlib.Data.Rat.Floor
import Mathlib.Tactic.FieldSimp
import Mathlib.Tactic.Linarith
import Mathlib.Tactic.Ring

/-!
# Correct rounding

The magnitudes of binary64 increase with their ordinals. The ordinals go on beyond the finite
ones, as if exponents had no upper bound, and a number is rounded correctly if it goes to an
ordinal whose magnitude is nearest to it, and to an even one if two are equally near. An ordinal
that is not finite stands for an infinity.

Rounding a ratio scales it to the exponent of its block and rounds the significand to an
integer. Magnitudes with that exponent or a greater one are integers on this scale, and those
with a smaller one lie below the whole block. So no magnitude is nearer. The exponents that are
decided before any power is formed round correctly too, since the numbers that have them lie
beyond all finite magnitudes or next to zero.
-/
namespace Brainfuck

namespace Ratio

/-- The rational number that a ratio stands for. -/
def toRat (q : Ratio) : ℚ := q.num / q.den

@[simp] theorem toRat_ofNat (n : Nat) : (ofNat n).toRat = n := by
  simp [toRat, ofNat]

theorem toRat_timesPow {base : Nat} (hbase : base ≠ 0) (q : Ratio) (e : Int) :
    (q.timesPow base e).toRat = q.toRat * (base : ℚ) ^ e := by
  obtain ⟨k, rfl | rfl⟩ := e.eq_nat_or_neg
  · rw [timesPow_natCast, toRat, toRat, zpow_natCast]
    push_cast
    ring
  · rw [timesPow_neg_natCast, toRat, toRat, zpow_neg, zpow_natCast]
    push_cast
    field_simp

theorem den_timesPow_pos {base : Nat} (hbase : base ≠ 0) {q : Ratio} (hden : 0 < q.den) (e : Int) :
    0 < (q.timesPow base e).den := by
  obtain ⟨k, rfl | rfl⟩ := e.eq_nat_or_neg
  · rwa [timesPow_natCast]
  · rw [timesPow_neg_natCast]
    exact Nat.mul_pos hden (Nat.pow_pos (Nat.pos_of_ne_zero hbase))

section
variable {q : Ratio} (hden : 0 < q.den)
include hden

/-- A ratio is its whole part and a remainder below one. -/
theorem toRat_eq_whole_add :
    q.toRat = (q.num / q.den : Nat) + (q.num % q.den : Nat) / (q.den : ℚ) := by
  have hden' : (q.den : ℚ) ≠ 0 := by exact_mod_cast hden.ne'
  have hsplit : (q.num : ℚ) = q.den * (q.num / q.den : Nat) + (q.num % q.den : Nat) := by
    exact_mod_cast (Nat.div_add_mod q.num q.den).symm
  rw [toRat, hsplit]
  field_simp

theorem fraction_lt_half_iff (rest : Nat) : (rest : ℚ) / q.den < 1 / 2 ↔ 2 * rest < q.den := by
  have hden' : (0 : ℚ) < q.den := by exact_mod_cast hden
  rw [div_lt_div_iff₀ hden' two_pos, one_mul, mul_comm]
  exact_mod_cast Iff.rfl

theorem half_lt_fraction_iff (rest : Nat) : 1 / 2 < (rest : ℚ) / q.den ↔ q.den < 2 * rest := by
  have hden' : (0 : ℚ) < q.den := by exact_mod_cast hden
  rw [div_lt_div_iff₀ two_pos hden', one_mul, mul_comm]
  exact_mod_cast Iff.rfl

/-- The rounded integer is at most a half away, and even if it is exactly a half away. -/
theorem round_spec :
    |(q.round : ℚ) - q.toRat| ≤ 1 / 2 ∧
      (|(q.round : ℚ) - q.toRat| = 1 / 2 → q.round % 2 = 0) := by
  have hbelow := fraction_lt_half_iff hden (q.num % q.den)
  have habove := half_lt_fraction_iff hden (q.num % q.den)
  have hone : (q.num % q.den : Nat) / (q.den : ℚ) < 1 := by
    rw [div_lt_one (by exact_mod_cast hden)]
    exact_mod_cast Nat.mod_lt _ hden
  have hnonneg : 0 ≤ (q.num % q.den : Nat) / (q.den : ℚ) := by positivity
  rw [toRat_eq_whole_add hden]
  unfold round
  dsimp only
  generalize q.num / q.den = whole
  generalize ((q.num % q.den : Nat) : ℚ) / q.den = t at hbelow habove hone hnonneg ⊢
  rcases lt_trichotomy t (1 / 2) with hlt | rfl | hgt
  · have hdist : |(whole : ℚ) - (whole + t)| = t := by
      rw [abs_sub_comm, add_sub_cancel_left, abs_of_nonneg hnonneg]
    rw [if_pos (hbelow.mp hlt), hdist]
    exact ⟨hlt.le, fun h => absurd h hlt.ne⟩
  · rw [if_neg (hbelow.not.mp (lt_irrefl _)), if_neg (habove.not.mp (lt_irrefl _))]
    refine ⟨?_, fun _ => by omega⟩
    rcases Nat.mod_two_eq_zero_or_one whole with heven | hodd
    · rw [heven, abs_le]
      constructor <;> push_cast <;> linarith
    · rw [hodd, abs_le]
      constructor <;> push_cast <;> linarith
  · have hdist : |((whole + 1 : Nat) : ℚ) - (whole + t)| = 1 - t := by
      rw [abs_of_pos] <;> push_cast <;> linarith
    rw [if_neg (hbelow.not.mp hgt.not_gt), if_pos (habove.mp hgt), hdist]
    exact ⟨by linarith, fun h => by linarith⟩

/-- No integer is nearer than the rounded one, and another one is equally near only if the
rounded one is even. -/
theorem round_nearest (k : Int) :
    |(q.round : ℚ) - q.toRat| ≤ |(k : ℚ) - q.toRat| ∧
      (|(k : ℚ) - q.toRat| = |(q.round : ℚ) - q.toRat| → k ≠ q.round → q.round % 2 = 0) := by
  obtain ⟨hhalf, heven⟩ := round_spec hden
  by_cases hk : k = q.round
  · subst hk
    exact ⟨le_of_eq rfl, fun _ h => absurd rfl h⟩
  · have hone : (1 : ℚ) ≤ |(k : ℚ) - q.round| := by
      have hint : (1 : ℤ) ≤ |k - q.round| := Int.one_le_abs (sub_ne_zero.mpr hk)
      exact_mod_cast hint
    have htriangle : |(k : ℚ) - q.round| ≤ |(k : ℚ) - q.toRat| + |(q.round : ℚ) - q.toRat| := by
      have h := abs_sub_le (k : ℚ) q.toRat q.round
      rwa [abs_sub_comm q.toRat] at h
    exact ⟨by linarith, fun h _ => heven (by linarith)⟩

theorem round_le_of_lt {n : Nat} (h : q.toRat < n) : q.round ≤ n := by
  have hhalf := (abs_le.mp (round_spec hden).1).2
  have hlt : (q.round : ℚ) < (n + 1 : Nat) := by
    push_cast
    linarith
  exact Nat.le_of_lt_succ (Nat.cast_lt.mp hlt)

theorem le_round_of_le {n : Nat} (h : (n : ℚ) ≤ q.toRat) : n ≤ q.round := by
  have hhalf := (abs_le.mp (round_spec hden).1).1
  have hlt : (n : ℚ) < (q.round + 1 : Nat) := by
    push_cast
    linarith
  exact Nat.le_of_lt_succ (Nat.cast_lt.mp hlt)

theorem one_le_toRat_iff : 1 ≤ q.toRat ↔ q.den ≤ q.num := by
  have hden' : (0 : ℚ) < q.den := by exact_mod_cast hden
  rw [toRat, one_le_div hden']
  exact Nat.cast_le

/-- The lengths of numerator and denominator give the logarithm up to one. -/
theorem toRat_mem_of_log2 (hnum : q.num ≠ 0) :
    (2 : ℚ) ^ ((q.num.log2 : Int) - q.den.log2 - 1) ≤ q.toRat ∧
      q.toRat < (2 : ℚ) ^ ((q.num.log2 : Int) - q.den.log2 + 1) := by
  have hden' : (0 : ℚ) < q.den := by exact_mod_cast hden
  have hnumLower : (2 : ℚ) ^ q.num.log2 ≤ q.num := by exact_mod_cast Nat.log2_self_le hnum
  have hnumUpper : (q.num : ℚ) < 2 ^ (q.num.log2 + 1) := by exact_mod_cast Nat.lt_log2_self
  have hdenLower : (2 : ℚ) ^ q.den.log2 ≤ q.den := by
    exact_mod_cast Nat.log2_self_le hden.ne'
  have hdenUpper : (q.den : ℚ) < 2 ^ (q.den.log2 + 1) := by exact_mod_cast Nat.lt_log2_self
  constructor
  · have hsplit : (2 : ℚ) ^ ((q.num.log2 : Int) - q.den.log2 - 1) =
        2 ^ q.num.log2 / 2 ^ (q.den.log2 + 1) := by
      rw [← zpow_natCast, ← zpow_natCast, ← zpow_sub₀ two_ne_zero]
      congr 1
      push_cast
      ring
    rw [hsplit]
    exact div_le_div₀ (Nat.cast_nonneg _) hnumLower hden' hdenUpper.le
  · have hsplit : (2 : ℚ) ^ ((q.num.log2 : Int) - q.den.log2 + 1) =
        2 ^ (q.num.log2 + 1) / 2 ^ q.den.log2 := by
      rw [← zpow_natCast, ← zpow_natCast, ← zpow_sub₀ two_ne_zero]
      congr 1
      push_cast
      ring
    rw [hsplit]
    exact div_lt_div₀ hnumUpper hdenLower (by positivity) (by positivity)

theorem floorLog2_spec (hnum : q.num ≠ 0) :
    (2 : ℚ) ^ q.floorLog2 ≤ q.toRat ∧ q.toRat < (2 : ℚ) ^ (q.floorLog2 + 1) := by
  obtain ⟨hlower, hupper⟩ := toRat_mem_of_log2 hden hnum
  unfold floorLog2
  dsimp only
  generalize (q.num.log2 : Int) - q.den.log2 = l at *
  have hscaled : ((q.timesPow 2 (-l)).den ≤ (q.timesPow 2 (-l)).num) ↔ (2 : ℚ) ^ l ≤ q.toRat := by
    rw [← one_le_toRat_iff (den_timesPow_pos two_ne_zero hden _), toRat_timesPow two_ne_zero,
      zpow_neg, ← div_eq_mul_inv, Nat.cast_ofNat, one_le_div (zpow_pos two_pos l)]
  by_cases h : (2 : ℚ) ^ l ≤ q.toRat
  · rw [if_pos (hscaled.mpr h)]
    exact ⟨h, hupper⟩
  · rw [if_neg (fun hle => h (hscaled.mp hle)), Int.sub_add_cancel]
    exact ⟨hlower, lt_of_not_ge h⟩

end

end Ratio

namespace Binary64

/-- The value of the magnitude with an ordinal. -/
def magnitudeValue (ordinal : Nat) : ℚ := (magnitude ordinal).toRat

theorem magnitudeValue_eq (ordinal : Nat) :
    magnitudeValue ordinal = significand ordinal * (2 : ℚ) ^ exponent ordinal := by
  rw [magnitudeValue, magnitude, Ratio.toRat_timesPow two_ne_zero, Ratio.toRat_ofNat,
    Nat.cast_ofNat]

/-- The ordinal of a block and a significand has their value. A significand of twice the block
size is the first of the next block. -/
theorem magnitudeValue_of_block {block s : Nat} (hs : s ≤ 2 * blockSize)
    (hblock : block = 0 ∨ blockSize ≤ s) :
    magnitudeValue (block * blockSize + s) = s * (2 : ℚ) ^ ((block : Int) - 1074) := by
  rw [magnitudeValue_eq]
  by_cases hcarry : s = 2 * blockSize
  · have hsignificand : significand (block * blockSize + s) = blockSize := by
      unfold significand blockSize at *
      rw [if_neg (by omega)]
      omega
    have hexponent : exponent (block * blockSize + s) = 1 + ((block : Int) - 1074) := by
      unfold exponent blockSize at *
      omega
    rw [hsignificand, hexponent, hcarry, zpow_add₀ two_ne_zero, zpow_one]
    push_cast
    ring
  · by_cases hfull : blockSize ≤ s
    · rw [significand_of_block hfull (by omega), exponent_of_block hfull (by omega)]
    · obtain rfl : block = 0 := by omega
      have hsignificand : significand (0 * blockSize + s) = s := by
        unfold significand blockSize at *
        rw [if_pos (by omega)]
        omega
      have hexponent : exponent (0 * blockSize + s) = ((0 : Nat) : Int) - 1074 := by
        unfold exponent blockSize at *
        omega
      rw [hsignificand, hexponent]

/-- Every ordinal is that of a block and a significand. Only the first block has significands
below the block size. -/
theorem exists_block (ordinal : Nat) :
    ∃ block s, ordinal = block * blockSize + s ∧ s < 2 * blockSize ∧
      (block = 0 ∨ blockSize ≤ s) := by
  by_cases hfirst : ordinal < blockSize
  · exact ⟨0, ordinal, by omega, by omega, .inl rfl⟩
  · refine ⟨ordinal / blockSize - 1, blockSize + ordinal % blockSize, ?_, ?_, .inr ?_⟩
    · unfold blockSize at *
      omega
    · have hlt : ordinal % blockSize < blockSize := Nat.mod_lt _ (by decide)
      omega
    · omega

theorem strictMono_magnitudeValue : StrictMono magnitudeValue := by
  apply strictMono_nat_of_lt_succ
  intro ordinal
  obtain ⟨block, s, rfl, hs, hblock⟩ := exists_block ordinal
  have hpos : (0 : ℚ) < 2 ^ ((block : Int) - 1074) := zpow_pos two_pos _
  rw [Nat.add_assoc, magnitudeValue_of_block hs.le hblock,
    magnitudeValue_of_block (s := s + 1) (by omega) (hblock.imp_right (by omega))]
  push_cast
  linarith

@[simp] theorem magnitudeValue_zero : magnitudeValue 0 = 0 := by
  rw [magnitudeValue_eq]
  simp [significand]

theorem magnitudeValue_nonneg (ordinal : Nat) : 0 ≤ magnitudeValue ordinal := by
  rw [← magnitudeValue_zero]
  exact strictMono_magnitudeValue.monotone (Nat.zero_le ordinal)

/-- An ordinal rounds a number: no magnitude is nearer, and if another one is equally near, the
ordinal is even. Its significand is even then too. -/
structure Rounds (x : ℚ) (ordinal : Nat) : Prop where
  nearest : ∀ other, |magnitudeValue ordinal - x| ≤ |magnitudeValue other - x|
  even : ∀ other, |magnitudeValue other - x| = |magnitudeValue ordinal - x| → other ≠ ordinal →
    ordinal % 2 = 0

/-- The number with a sign and an ordinal. There is nothing between the finite ordinals and the
infinity. -/
def ofOrdinal (negative : Bool) (ordinal : Nat) : Binary64 :=
  if h : ordinal < magnitudes then .finite negative ⟨ordinal, h⟩ else .infinity negative

/-- The scale of a ratio: the block that it is rounded in, and the ratio in units of its
exponent. -/
theorem ofRatio_eq {q : Ratio} (hnum : q.num ≠ 0) (negative : Bool) :
    ∃ block : Nat, ((block : Int) - 1074 = max (q.floorLog2 - 52) (-1074)) ∧
      ofRatio negative q = ofOrdinal negative
        (block * blockSize + (q.timesPow 2 (-((block : Int) - 1074))).round) := by
  refine ⟨(max (q.floorLog2 - 52) minExponent - minExponent).toNat, ?_, ?_⟩
  · unfold minExponent
    omega
  · have hexponent : (((max (q.floorLog2 - 52) minExponent - minExponent).toNat : Nat) : Int) -
        1074 = max (q.floorLog2 - 52) minExponent := by
      unfold minExponent
      omega
    rw [hexponent]
    unfold ofRatio ofOrdinal
    rw [if_neg hnum]

section
variable {x : ℚ} {q : Ratio} {block : Nat}

/-- In units of the block a ratio lies below two to the power of 53, and not below two to the
power of 52 unless the block is the first. -/
theorem toRat_scaled_mem (hden : 0 < q.den) (hnum : q.num ≠ 0)
    (hblock : (block : Int) - 1074 = max (q.floorLog2 - 52) (-1074)) :
    (q.timesPow 2 (-((block : Int) - 1074))).toRat < 2 ^ 53 ∧
      (block = 0 ∨ 2 ^ 52 ≤ (q.timesPow 2 (-((block : Int) - 1074))).toRat) := by
  obtain ⟨hlower, hupper⟩ := Ratio.floorLog2_spec hden hnum
  have hpos : (0 : ℚ) < 2 ^ ((block : Int) - 1074) := zpow_pos two_pos _
  rw [Ratio.toRat_timesPow two_ne_zero, zpow_neg, ← div_eq_mul_inv, Nat.cast_ofNat]
  constructor
  · rw [div_lt_iff₀ hpos, ← zpow_natCast, ← zpow_add₀ two_ne_zero]
    apply hupper.trans_le
    apply zpow_le_zpow_right₀ one_le_two
    omega
  · by_cases hfirst : block = 0
    · exact .inl hfirst
    · right
      rw [le_div_iff₀ hpos, ← zpow_natCast, ← zpow_add₀ two_ne_zero]
      apply le_trans _ hlower
      apply zpow_le_zpow_right₀ one_le_two
      omega

/-- In units of a block, the magnitudes of this block and the later ones are integers, and
those of earlier blocks are below two to the power of 52. -/
theorem exists_magnitudeValue_eq_mul (other block : Nat) :
    ∃ y : ℚ, magnitudeValue other = y * 2 ^ ((block : Int) - 1074) ∧
      ((∃ k : Int, y = k) ∨ block ≠ 0 ∧ y < 2 ^ 52) := by
  obtain ⟨block', s, rfl, hs, hfirst⟩ := exists_block other
  have hshift : (2 : ℚ) ^ ((block' : Int) - 1074) =
      2 ^ ((block' : Int) - block) * 2 ^ ((block : Int) - 1074) := by
    rw [← zpow_add₀ two_ne_zero]
    congr 1
    ring
  refine ⟨s * 2 ^ ((block' : Int) - block), ?_, ?_⟩
  · rw [magnitudeValue_of_block hs.le hfirst, hshift, mul_assoc]
  · by_cases hlater : block ≤ block'
    · obtain ⟨k, rfl⟩ := Nat.exists_eq_add_of_le hlater
      refine .inl ⟨s * 2 ^ k, ?_⟩
      rw [Nat.cast_add, add_sub_cancel_left, zpow_natCast]
      push_cast
      rfl
    · refine .inr ⟨by omega, ?_⟩
      have hs' : (s : ℚ) < 2 ^ 53 := by exact_mod_cast hs
      have hpower : (2 : ℚ) ^ ((block' : Int) - block) ≤ 2 ^ (-1 : Int) :=
        zpow_le_zpow_right₀ one_le_two (by omega)
      have hpos : (0 : ℚ) < 2 ^ ((block' : Int) - block) := zpow_pos two_pos _
      calc (s : ℚ) * 2 ^ ((block' : Int) - block)
          < 2 ^ 53 * 2 ^ ((block' : Int) - block) := mul_lt_mul_of_pos_right hs' hpos
        _ ≤ 2 ^ 53 * 2 ^ (-1 : Int) := by gcongr
        _ = 2 ^ 52 := by norm_num

/-- In units of its block, no magnitude is nearer to a ratio than the rounded integer. -/
theorem abs_round_sub_le_of_scaled (hden : 0 < q.den) (hlower : block = 0 ∨ 2 ^ 52 ≤ q.toRat)
    {y : ℚ} (hy : (∃ k : Int, y = k) ∨ block ≠ 0 ∧ y < 2 ^ 52) :
    |(q.round : ℚ) - q.toRat| ≤ |y - q.toRat| ∧
      (|y - q.toRat| = |(q.round : ℚ) - q.toRat| → y ≠ q.round → q.round % 2 = 0) := by
  rcases hy with ⟨k, rfl⟩ | ⟨hblock, hy⟩
  · obtain ⟨hnearest, heven⟩ := Ratio.round_nearest hden k
    exact ⟨hnearest, fun htie hne => heven htie fun hk => hne (by rw [hk, Int.cast_natCast])⟩
  · -- The least significand of the block is nearer than anything below the block.
    have hlower := hlower.resolve_left hblock
    have hnearest := (Ratio.round_nearest hden ((2 : Int) ^ 52)).1
    rw [Int.cast_pow, Int.cast_ofNat, abs_sub_comm ((2 : ℚ) ^ 52),
      abs_of_nonneg (sub_nonneg.mpr hlower)] at hnearest
    have hfar : |y - q.toRat| = q.toRat - y := by
      rw [abs_sub_comm, abs_of_pos (by linarith)]
    rw [hfar]
    exact ⟨by linarith, fun htie => by linarith⟩

theorem rounds_of_scaled (hden : 0 < q.den) (hupper : q.toRat < 2 ^ 53)
    (hlower : block = 0 ∨ 2 ^ 52 ≤ q.toRat) :
    Rounds (q.toRat * 2 ^ ((block : Int) - 1074)) (block * blockSize + q.round) := by
  have hpos : (0 : ℚ) < 2 ^ ((block : Int) - 1074) := zpow_pos two_pos _
  have hround : q.round ≤ 2 * blockSize := Ratio.round_le_of_lt hden (by exact_mod_cast hupper)
  have hfirst : block = 0 ∨ blockSize ≤ q.round :=
    hlower.imp_right fun h => Ratio.le_round_of_le hden (by exact_mod_cast h)
  have hvalue := magnitudeValue_of_block hround hfirst
  have hdistance : ∀ y : ℚ, |y * 2 ^ ((block : Int) - 1074) -
      q.toRat * 2 ^ ((block : Int) - 1074)| = |y - q.toRat| * 2 ^ ((block : Int) - 1074) := by
    intro y
    rw [← sub_mul, abs_mul, abs_of_pos hpos]
  constructor
  · intro other
    obtain ⟨y, hother, hy⟩ := exists_magnitudeValue_eq_mul other block
    rw [hvalue, hother, hdistance, hdistance]
    exact mul_le_mul_of_nonneg_right (abs_round_sub_le_of_scaled hden hlower hy).1 hpos.le
  · intro other htie hne
    obtain ⟨y, hother, hy⟩ := exists_magnitudeValue_eq_mul other block
    have hy' : y ≠ q.round := by
      rintro rfl
      exact hne (strictMono_magnitudeValue.injective (hother.trans hvalue.symm))
    rw [hvalue, hother, hdistance, hdistance] at htie
    have heven := (abs_round_sub_le_of_scaled hden hlower hy).2
      (mul_right_cancel₀ hpos.ne' htie) hy'
    unfold blockSize
    omega

end

theorem rounds_zero : Rounds 0 0 := by
  constructor
  · intro other
    simp
  · intro _ _ _
    rfl

/-- A ratio is rounded correctly. -/
theorem exists_rounds_ofRatio {q : Ratio} (hden : 0 < q.den) (negative : Bool) :
    ∃ ordinal, Rounds q.toRat ordinal ∧ ofRatio negative q = ofOrdinal negative ordinal := by
  by_cases hnum : q.num = 0
  · have hzero : q.toRat = 0 := by simp [Ratio.toRat, hnum]
    refine ⟨0, hzero ▸ rounds_zero, ?_⟩
    unfold ofRatio
    rw [if_pos hnum]
    rfl
  · obtain ⟨block, hblock, heq⟩ := ofRatio_eq hnum negative
    obtain ⟨hupper, hlower⟩ := toRat_scaled_mem hden hnum hblock
    have hrounds := rounds_of_scaled (Ratio.den_timesPow_pos two_ne_zero hden _) hupper hlower
    have hvalue : (q.timesPow 2 (-((block : Int) - 1074))).toRat * 2 ^ ((block : Int) - 1074) =
        q.toRat := by
      rw [Ratio.toRat_timesPow two_ne_zero, Nat.cast_ofNat, mul_assoc, ← zpow_add₀ two_ne_zero,
        Int.add_left_neg, zpow_zero, mul_one]
    exact ⟨_, hvalue ▸ hrounds, heq⟩

section
variable {x : ℚ} {ordinal m : Nat}

/-- Rounding does not go below a magnitude that is not above the number. -/
theorem Rounds.le_of_magnitudeValue_le (h : Rounds x ordinal) (hm : magnitudeValue m ≤ x) :
    m ≤ ordinal := by
  by_contra hlt
  have hvalue := strictMono_magnitudeValue (Nat.lt_of_not_le hlt)
  have hnearest := h.nearest m
  rw [abs_sub_comm, abs_of_pos (by linarith), abs_sub_comm, abs_of_nonneg (by linarith)]
    at hnearest
  linarith

theorem Rounds.le_of_le_magnitudeValue (h : Rounds x ordinal) (hm : x ≤ magnitudeValue m) :
    ordinal ≤ m := by
  by_contra hlt
  have hvalue := strictMono_magnitudeValue (Nat.lt_of_not_le hlt)
  have hnearest := h.nearest m
  rw [abs_of_pos (by linarith), abs_of_nonneg (by linarith)] at hnearest
  linarith

/-- A magnitude is rounded to itself. -/
theorem Rounds.eq_of_magnitudeValue_eq (h : Rounds x ordinal) (hm : magnitudeValue m = x) :
    ordinal = m :=
  Nat.le_antisymm (h.le_of_le_magnitudeValue hm.ge) (h.le_of_magnitudeValue_le hm.le)

theorem magnitudeValue_magnitudes : magnitudeValue magnitudes = 2 ^ (1024 : Int) := by
  have hvalue : magnitudeValue (2046 * blockSize + blockSize) = _ :=
    magnitudeValue_of_block (by decide) (.inr (Nat.le_refl _))
  have hblock : ((blockSize : Nat) : ℚ) = 2 ^ (52 : Int) := by norm_num [blockSize]
  rw [hblock, ← zpow_add₀ two_ne_zero] at hvalue
  exact hvalue

theorem ofOrdinal_of_magnitudes_le (h : magnitudes ≤ ordinal) (negative : Bool) :
    ofOrdinal negative ordinal = .infinity negative :=
  dif_neg (Nat.not_lt.mpr h)

/-- Below half of the least positive magnitude a number is rounded to zero. -/
theorem Rounds.eq_zero (h : Rounds x ordinal) (hnonneg : 0 ≤ x) (hx : x < 2 ^ (-1075 : Int)) :
    ordinal = 0 := by
  by_contra hne
  have hleast : magnitudeValue 1 = 2 ^ (-1074 : Int) := by
    have hvalue : magnitudeValue (0 * blockSize + 1) = _ :=
      magnitudeValue_of_block (by decide) (.inl rfl)
    rw [Nat.cast_one, one_mul] at hvalue
    exact hvalue
  have hvalue := strictMono_magnitudeValue.monotone (Nat.one_le_iff_ne_zero.mpr hne)
  have hdouble : (2 : ℚ) ^ (-1074 : Int) = 2 * 2 ^ (-1075 : Int) := by
    rw [← zpow_one_add₀ two_ne_zero]
    rfl
  rw [hleast, hdouble] at hvalue
  have hnearest := h.nearest 0
  rw [magnitudeValue_zero, zero_sub, abs_neg, abs_of_nonneg hnonneg, abs_of_pos (by linarith)]
    at hnearest
  linarith

end

end Binary64

namespace Numeral

open Binary64

section
variable {coefficient : Nat} {exponent : Int}

theorem two_pow_le_ten_pow {m n : Nat} (h : m ≤ 3 * n) : (2 : ℚ) ^ m ≤ 10 ^ n :=
  calc (2 : ℚ) ^ m ≤ 2 ^ (3 * n) := pow_le_pow_right₀ one_le_two h
    _ = (2 ^ 3) ^ n := pow_mul 2 3 n
    _ ≤ 10 ^ n := pow_le_pow_left₀ (by norm_num) (by norm_num) n

theorem two_zpow_le_of_exponent (hcoefficient : coefficient ≠ 0) (h : 400 < exponent) :
    (2 : ℚ) ^ (1024 : Int) ≤ coefficient * 10 ^ exponent := by
  have hone : (1 : ℚ) ≤ coefficient := by exact_mod_cast Nat.one_le_iff_ne_zero.mpr hcoefficient
  have hpos : (0 : ℚ) < 10 ^ exponent := zpow_pos (by norm_num) _
  calc (2 : ℚ) ^ (1024 : Int) ≤ 10 ^ (400 : Int) := by
        rw [zpow_ofNat, zpow_ofNat]
        exact two_pow_le_ten_pow (by decide)
    _ ≤ 10 ^ exponent := zpow_le_zpow_right₀ (by norm_num) h.le
    _ ≤ coefficient * 10 ^ exponent := le_mul_of_one_le_left hpos.le hone

/-- A coefficient has no more decimal digits than binary ones. -/
theorem lt_two_zpow_of_exponent (h : exponent + coefficient.log2 < -401) :
    (coefficient : ℚ) * 10 ^ exponent < 2 ^ (-1075 : Int) := by
  have hpos : (0 : ℚ) < 10 ^ exponent := zpow_pos (by norm_num) _
  have hdigits : (coefficient : ℚ) < 10 ^ ((coefficient.log2 : Int) + 1) := by
    have hbits : coefficient < 10 ^ (coefficient.log2 + 1) :=
      Nat.lt_of_lt_of_le Nat.lt_log2_self (Nat.pow_le_pow_left (by decide) _)
    exact_mod_cast hbits
  calc (coefficient : ℚ) * 10 ^ exponent
      < 10 ^ ((coefficient.log2 : Int) + 1) * 10 ^ exponent :=
        mul_lt_mul_of_pos_right hdigits hpos
    _ = 10 ^ ((coefficient.log2 : Int) + 1 + exponent) := (zpow_add₀ (by norm_num) _ _).symm
    _ ≤ 10 ^ (-401 : Int) := zpow_le_zpow_right₀ (by norm_num) (by omega)
    _ ≤ 2 ^ (-1075 : Int) := by
        rw [zpow_neg, zpow_neg, zpow_ofNat, zpow_ofNat]
        exact inv_anti₀ (pow_pos two_pos _) (two_pow_le_ten_pow (by decide))

end

/-- A written number is rounded correctly, whatever its length and its exponent. -/
theorem exists_rounds_round (negative : Bool) (coefficient : Nat) (exponent : Int) :
    ∃ ordinal, Rounds (coefficient * (10 : ℚ) ^ exponent) ordinal ∧
      (decimal negative coefficient exponent).round = ofOrdinal negative ordinal := by
  have hden : 0 < ((Ratio.ofNat coefficient).timesPow 10 exponent).den :=
    Ratio.den_timesPow_pos (by decide) Nat.one_pos _
  obtain ⟨ordinal, hrounds, hratio⟩ := exists_rounds_ofRatio hden negative
  rw [Ratio.toRat_timesPow (by decide), Ratio.toRat_ofNat, Nat.cast_ofNat] at hrounds
  refine ⟨ordinal, hrounds, ?_⟩
  by_cases hzero : coefficient = 0
  · obtain rfl : ordinal = 0 := hrounds.eq_of_magnitudeValue_eq (by simp [hzero])
    rw [round, if_pos hzero]
    rfl
  by_cases hlarge : 400 < exponent
  · have hle := two_zpow_le_of_exponent hzero hlarge
    rw [← magnitudeValue_magnitudes] at hle
    rw [round, if_neg hzero, if_pos hlarge,
      ofOrdinal_of_magnitudes_le (hrounds.le_of_magnitudeValue_le hle)]
  by_cases hsmall : exponent + coefficient.log2 < -401
  · have hnonneg : (0 : ℚ) ≤ coefficient * 10 ^ exponent :=
      mul_nonneg (Nat.cast_nonneg _) (zpow_nonneg (by norm_num) _)
    obtain rfl := hrounds.eq_zero hnonneg (lt_two_zpow_of_exponent hsmall)
    rw [round, if_neg hzero, if_neg hlarge, if_pos hsmall]
    rfl
  · rw [round, if_neg hzero, if_neg hlarge, if_neg hsmall]
    exact hratio

end Numeral

end Brainfuck
