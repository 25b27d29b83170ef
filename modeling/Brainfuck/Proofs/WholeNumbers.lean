import Brainfuck.Number.Binary64
import Mathlib.Algebra.Ring.Nat

/-!
# Whole numbers in binary64

Every natural number up to `maxSafeInteger` is a binary64 number: it has at most as many
bits as a significand, so shifting it to the full length of one leaves nothing to be rounded,
and the exponent takes the shift back.
-/
namespace Brainfuck

namespace Ratio

theorem timesPow_natCast (base : Nat) (q : Ratio) (k : Nat) :
    timesPow base q (k : Int) = ⟨q.num * base ^ k, q.den⟩ := by
  simp [timesPow]

/-- A negative exponent goes into the denominator; an exponent of zero changes nothing. -/
theorem timesPow_neg_natCast (base : Nat) (q : Ratio) (k : Nat) :
    timesPow base q (-(k : Int)) = ⟨q.num, q.den * base ^ k⟩ := by
  cases k with
  | zero => simp [timesPow]
  | succ k =>
      have hneg : ¬ 0 ≤ -((k + 1 : Nat) : Int) := by omega
      unfold timesPow
      rw [if_neg hneg, Int.neg_neg, Int.toNat_natCast]
      simp

@[simp] theorem round_ofNat (n : Nat) : (ofNat n).round = n := by
  have hmod : n % 1 = 0 := Nat.mod_one n
  simp [round, ofNat, hmod]

theorem floorLog2_ofNat {n : Nat} (hn : n ≠ 0) : (ofNat n).floorLog2 = n.log2 := by
  have hlog : ((ofNat n).num.log2 : Int) - (ofNat n).den.log2 = n.log2 := Int.sub_zero _
  have hle : 1 * 2 ^ n.log2 ≤ n := by
    rw [Nat.one_mul]
    exact Nat.log2_self_le hn
  unfold floorLog2
  dsimp only
  rw [hlog, timesPow_neg_natCast]
  exact if_pos hle

end Ratio

namespace Binary64

section
variable {block s : Nat} (hs : blockSize ≤ s) (hs' : s < 2 * blockSize)
include hs hs'

/-- A significand with all its bits is found again in the ordinal behind its block. -/
theorem significand_of_block : significand (block * blockSize + s) = s := by
  unfold significand blockSize at *
  rw [if_neg (by omega)]
  omega

theorem exponent_of_block : exponent (block * blockSize + s) = block - 1074 := by
  unfold exponent blockSize at *
  omega

end

theorem toInt?_of_magnitude {ordinal : Fin magnitudes} {n : Nat}
    (h : (magnitude ordinal).num = n * (magnitude ordinal).den)
    (hpos : 0 < (magnitude ordinal).den) : (finite false ordinal).toInt? = some (n : Int) := by
  have hden : ((magnitude ordinal).den : Int) ≠ 0 := by omega
  simp [toInt?, value?, h, Int.mul_ediv_cancel _ hden]

/-- The shift that makes an integer up to `maxSafeInteger` a full significand. -/
theorem exists_shift {n : Nat} (hn : n ≠ 0) (h : n ≤ maxSafeInteger) :
    ∃ shift, n.log2 + shift = 52 ∧ blockSize ≤ n * 2 ^ shift ∧ n * 2 ^ shift < 2 * blockSize := by
  have hlog : n.log2 < 53 := (Nat.log2_lt hn).mpr (Nat.lt_succ_of_le h)
  obtain ⟨shift, hshift⟩ : ∃ shift, n.log2 + shift = 52 := ⟨52 - n.log2, by omega⟩
  have hpow : 2 ^ n.log2 * 2 ^ shift = blockSize := by
    rw [← Nat.pow_add, hshift]
  refine ⟨shift, hshift, ?_, ?_⟩
  · rw [← hpow]
    exact Nat.mul_le_mul_right _ (Nat.log2_self_le hn)
  · rw [← hpow, ← Nat.mul_assoc]
    apply Nat.mul_lt_mul_of_pos_right _ (Nat.two_pow_pos shift)
    rw [Nat.mul_comm, ← Nat.pow_succ]
    exact Nat.lt_log2_self

/-- Nothing is rounded: the significand is the integer itself, shifted. -/
theorem exists_ordinal_ofNat {n : Nat} (hn : n ≠ 0) (h : n ≤ maxSafeInteger) :
    ∃ ordinal shift, ofNat n = finite false ordinal ∧
      magnitude ordinal = ⟨n * 2 ^ shift, 2 ^ shift⟩ := by
  obtain ⟨shift, hshift, hlower, hupper⟩ := exists_shift hn h
  have he : max ((Ratio.ofNat n).floorLog2 - 52) minExponent = -(shift : Int) := by
    rw [Ratio.floorLog2_ofNat hn, minExponent]
    omega
  have hblock : (-(shift : Int) - minExponent).toNat = 1074 - shift := by
    rw [minExponent]
    omega
  have hscaled : (Ratio.ofNat n).timesPow 2 (- -(shift : Int)) = Ratio.ofNat (n * 2 ^ shift) := by
    rw [Int.neg_neg, Ratio.timesPow_natCast]
    rfl
  have hbound : (1074 - shift) * blockSize + n * 2 ^ shift < magnitudes := by
    unfold magnitudes blockSize at *
    omega
  refine ⟨⟨_, hbound⟩, shift, ?_, ?_⟩
  · have hnum : (Ratio.ofNat n).num ≠ 0 := hn
    unfold ofNat ofRatio
    rw [if_neg hnum]
    dsimp only
    simp only [he, hblock, hscaled, Ratio.round_ofNat, dif_pos hbound]
  · have hexponent : ((1074 - shift : Nat) : Int) - 1074 = -(shift : Int) := by omega
    unfold magnitude
    rw [significand_of_block hlower hupper, exponent_of_block hlower hupper, hexponent,
      Ratio.timesPow_neg_natCast]
    exact congrArg (Ratio.mk _) (Nat.one_mul _)

/-- An integer up to `maxSafeInteger` is a binary64 number. -/
theorem toInt?_ofNat {n : Nat} (h : n ≤ maxSafeInteger) : (ofNat n).toInt? = some (n : Int) := by
  by_cases hn : n = 0
  · subst hn
    decide +kernel
  · obtain ⟨ordinal, shift, hfinite, hmagnitude⟩ := exists_ordinal_ofNat hn h
    rw [hfinite]
    apply toInt?_of_magnitude <;> rw [hmagnitude]
    exact Nat.two_pow_pos shift

/-- Comparison with an integer up to `maxSafeInteger` is exact. -/
theorem ltNat_ofNat_iff {m n : Nat} (hm : m ≠ 0) (h : m ≤ maxSafeInteger) :
    (ofNat m).ltNat n = true ↔ m < n := by
  obtain ⟨ordinal, shift, hfinite, hmagnitude⟩ := exists_ordinal_ofNat hm h
  have hpos : 0 < 2 ^ shift := Nat.two_pow_pos shift
  rw [hfinite]
  simp only [ltNat, value?, hmagnitude, Bool.false_eq_true, if_false, decide_eq_true_eq]
  rw [← Int.natCast_mul, Int.ofNat_lt]
  exact Nat.mul_lt_mul_right hpos

end Binary64

end Brainfuck
