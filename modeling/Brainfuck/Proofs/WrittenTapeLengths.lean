import Brainfuck.Options
import Brainfuck.Proofs.Literals
import Brainfuck.Proofs.Rounding
import Mathlib.Algebra.Order.Round
import Mathlib.Data.List.Induction

/-!
# Tape lengths as they are written

A tape length is checked on the rounded number, not on the written one. Up to two to the power
of 53 every natural number is a magnitude, so a written integer is not rounded at all, a number
on the wrong side of a bound stays there, and everything between moves by at most one half.
-/
namespace Brainfuck

open Numeral (signFactor Writes)

namespace Binary64

section
variable {x : ℚ} {ordinal : Nat}

theorem magnitudeValue_two_pow_53 : magnitudeValue (1076 * blockSize) = 2 ^ 53 := by
  have hvalue : magnitudeValue (1075 * blockSize + blockSize) = _ :=
    magnitudeValue_of_block (by decide) (.inr (Nat.le_refl _))
  rw [← Nat.succ_mul] at hvalue
  rw [hvalue]
  norm_num [blockSize]

theorem two_pow_53_le_magnitudeValue (h : 1076 * blockSize ≤ ordinal) :
    2 ^ 53 ≤ magnitudeValue ordinal := by
  rw [← magnitudeValue_two_pow_53]
  exact strictMono_magnitudeValue.monotone h

theorem exists_magnitudeValue_natCast {n : Nat} (h : n ≤ 2 ^ 53) :
    ∃ ordinal, magnitudeValue ordinal = n := by
  rcases Nat.eq_zero_or_pos n with rfl | hpos
  · exact ⟨0, by rw [magnitudeValue_zero, Nat.cast_zero]⟩
  rcases Nat.lt_or_eq_of_le h with hlt | rfl
  · obtain ⟨ordinal, shift, _, hmagnitude⟩ :=
      exists_ordinal_ofNat hpos.ne' (Nat.le_of_lt_succ hlt)
    refine ⟨ordinal, ?_⟩
    rw [magnitudeValue, hmagnitude, Ratio.toRat]
    push_cast
    exact mul_div_cancel_right₀ _ (pow_ne_zero _ two_ne_zero)
  · exact ⟨_, by rw [magnitudeValue_two_pow_53]; norm_num⟩

/-- Below two to the power of 53 a number has a natural number within one half, and that one is
a magnitude. -/
theorem Rounds.abs_sub_le_half (h : Rounds x ordinal) (hx : 0 ≤ x) (hlt : x < 2 ^ 53) :
    |x - magnitudeValue ordinal| ≤ 1 / 2 := by
  have hround := abs_sub_round x
  obtain ⟨hlower, hupper⟩ := abs_le.mp hround
  have hnonneg : 0 ≤ round x := by
    have : ((-1 : Int) : ℚ) < round x := by push_cast; linarith
    have := Int.cast_lt.mp this
    omega
  have hle : round x ≤ 2 ^ 53 := by
    have : (round x : ℚ) < ((2 ^ 53 + 1 : Int) : ℚ) := by push_cast; linarith
    have := Int.cast_lt.mp this
    omega
  obtain ⟨k, hk⟩ := Int.eq_ofNat_of_zero_le hnonneg
  obtain ⟨other, hother⟩ := exists_magnitudeValue_natCast (n := k) (by omega)
  calc |x - magnitudeValue ordinal| = |magnitudeValue ordinal - x| := abs_sub_comm _ _
    _ ≤ |magnitudeValue other - x| := h.nearest other
    _ = |x - round x| := by rw [hother, hk, Int.cast_natCast, abs_sub_comm]
    _ ≤ 1 / 2 := hround

end

theorem toInt?_finite_iff {negative : Bool} {ordinal : Fin magnitudes} {z : Int} :
    (finite negative ordinal).toInt? = some z ↔
      signFactor negative * magnitudeValue ordinal = z := by
  have hden : 0 < (magnitude ordinal).den := Ratio.den_timesPow_pos two_ne_zero Nat.one_pos _
  have hden' : ((magnitude ordinal).den : ℚ) ≠ 0 := by exact_mod_cast hden.ne'
  set q := magnitude ordinal with hq
  have hvalue : (finite negative ordinal).value? =
      some (if negative then -(q.num : Int) else q.num, q.den) := rfl
  have hsigned : signFactor negative * magnitudeValue ordinal =
      ((if negative then -(q.num : Int) else q.num : Int) : ℚ) / q.den := by
    rw [magnitudeValue, ← hq, Ratio.toRat, signFactor]
    cases negative <;> simp [neg_div]
  rw [toInt?, hvalue, hsigned, div_eq_iff hden']
  generalize (if negative then -(q.num : Int) else q.num : Int) = num
  simp only [Option.bind_some]
  constructor
  · intro h
    split at h
    next hmod =>
      obtain rfl := Option.some.inj h
      exact_mod_cast (Int.ediv_mul_cancel (Int.dvd_of_emod_eq_zero hmod)).symm
    next => cases h
  · intro h
    obtain rfl : num = z * q.den := by exact_mod_cast h
    rw [if_pos (Int.mul_emod_left _ _), Int.mul_ediv_cancel _ (by omega)]

end Binary64

open Binary64

theorem tapeLength?_eq_some_iff {x : Binary64} {n : Nat} :
    tapeLength? x = some n ↔ x.toInt? = some (n : Int) ∧ 0 < n ∧ n < 2 ^ 53 := by
  simp only [tapeLength?, toSafeInt?, Option.map_eq_some_iff, Option.filter_eq_some_iff,
    decide_eq_true_eq]
  unfold maxSafeInteger
  constructor
  · rintro ⟨z, ⟨⟨hz, hle⟩, hpos⟩, rfl⟩
    rw [Int.toNat_of_nonneg hpos.le]
    exact ⟨hz, by omega, by omega⟩
  · rintro ⟨hz, hpos, hlt⟩
    exact ⟨n, ⟨⟨hz, by omega⟩, by omega⟩, Int.toNat_natCast n⟩

/-- A number gives the tape length that it is. The bound excludes infinity: the value behind
the last finite ordinal is far above it. -/
theorem tapeLength?_ofOrdinal_iff {negative : Bool} {ordinal n : Nat} :
    tapeLength? (ofOrdinal negative ordinal) = some n ↔
      signFactor negative * magnitudeValue ordinal = n ∧ 0 < n ∧ n < 2 ^ 53 := by
  rw [tapeLength?_eq_some_iff]
  by_cases h : ordinal < magnitudes
  · rw [ofOrdinal, dif_pos h, toInt?_finite_iff, Int.cast_natCast]
  · constructor
    · rw [ofOrdinal, dif_neg h]
      nofun
    · rintro ⟨hvalue, hpos, hlt⟩
      have hlarge := two_pow_53_le_magnitudeValue
        (Nat.le_trans (Nat.mul_le_mul_right _ (by decide)) (Nat.le_of_not_lt h))
      have hn : (n : ℚ) < 2 ^ 53 := by exact_mod_cast hlt
      have hpos' : (0 : ℚ) < n := by exact_mod_cast hpos
      cases negative <;> simp only [signFactor, Bool.false_eq_true, if_true, if_false] at hvalue <;>
        linarith

/-- A literal is read as the number nearest to its value. -/
theorem Numeral.Writes.exists_rounds_ofText {text : String} {x : ℚ} (h : Writes text x) :
    ∃ negative ordinal, ofText text = ofOrdinal negative ordinal ∧ Rounds |x| ordinal ∧
      x = signFactor negative * |x| := by
  obtain ⟨negative, coefficient, exponent, hparse, hx⟩ := h.exists_parse?
  obtain ⟨ordinal, hrounds, hround⟩ := Numeral.exists_rounds_round negative coefficient exponent
  have hnonneg : (0 : ℚ) ≤ coefficient * 10 ^ exponent :=
    mul_nonneg (Nat.cast_nonneg _) (zpow_nonneg (by norm_num) _)
  have habs : |x| = coefficient * 10 ^ exponent := by
    rw [hx]
    cases negative <;> simp [signFactor, abs_of_nonneg hnonneg]
  refine ⟨negative, ordinal, ?_, habs ▸ hrounds, habs ▸ hx⟩
  rw [ofText, hparse]
  exact hround

theorem parseTapeLength_eq_ok_iff {text : String} {n : Nat} :
    parseTapeLength text = .ok n ↔ tapeLength? (ofText text) = some n := by
  unfold parseTapeLength
  cases tapeLength? (ofText text) <;> simp

theorem parseTapeLength_eq_error_iff {text : String} {error : ConfigError} :
    parseTapeLength text = .error error ↔
      error = .tapeLength text ∧ ∀ n, tapeLength? (ofText text) ≠ some n := by
  unfold parseTapeLength
  cases tapeLength? (ofText text) <;> simp [eq_comm]

section
variable {x : ℚ} {negative : Bool} {ordinal n : Nat}

/-- A number that rounds to a positive length is not negative and stays below two to the power
of 53. -/
theorem Binary64.Rounds.mem_of_length (h : Rounds |x| ordinal) (hx : x = signFactor negative * |x|)
    (hvalue : signFactor negative * magnitudeValue ordinal = n) (hpos : 0 < n) (hlt : n < 2 ^ 53) :
    0 < x ∧ x < 2 ^ 53 ∧ |x| = x ∧ magnitudeValue ordinal = n := by
  have hpos' : (0 : ℚ) < n := by exact_mod_cast hpos
  have hlt' : (n : ℚ) < 2 ^ 53 := by exact_mod_cast hlt
  have hnonneg := magnitudeValue_nonneg ordinal
  cases negative with
  | true =>
      rw [signFactor, if_pos rfl] at hvalue
      linarith
  | false =>
      rw [signFactor, if_neg Bool.false_ne_true, one_mul] at hx hvalue
      rw [← hx] at h
      refine ⟨?_, ?_, hx.symm, hvalue⟩
      · by_contra hle
        have hordinal := h.le_of_le_magnitudeValue (m := 0) (by rw [magnitudeValue_zero]; linarith)
        rw [Nat.le_zero.mp hordinal, magnitudeValue_zero] at hvalue
        linarith
      · by_contra hge
        have hordinal := h.le_of_magnitudeValue_le (m := 1076 * blockSize)
          (by rw [magnitudeValue_two_pow_53]; linarith)
        linarith [two_pow_53_le_magnitudeValue hordinal]

end

/-- A written tape length is exact on the integers, although it is checked after rounding. Outside
the bounds it is refused, with the text as it was given, and what is accepted is the nearest
integer, or one of two. -/
theorem parseTapeLength_of_literal {raw : String} {x : ℚ} (h : Writes raw x) :
    (∀ n : Nat, x = n → 1 ≤ n → n ≤ 2 ^ 53 - 1 → parseTapeLength raw = .ok n) ∧
    (x ≤ 0 ∨ 2 ^ 53 ≤ x → parseTapeLength raw = .error (.tapeLength raw)) ∧
    ∀ n : Nat, parseTapeLength raw = .ok n → 1 ≤ n ∧ n ≤ 2 ^ 53 - 1 ∧ |x - n| ≤ 1 / 2 := by
  obtain ⟨negative, ordinal, hread, hrounds, hx⟩ := h.exists_rounds_ofText
  refine ⟨?_, ?_, ?_⟩
  · rintro n rfl hpos hle
    obtain ⟨exact, hexact⟩ := exists_magnitudeValue_natCast (n := n) (by omega)
    rw [Nat.abs_cast] at hrounds hx
    rw [parseTapeLength_eq_ok_iff, hread, tapeLength?_ofOrdinal_iff,
      hrounds.eq_of_magnitudeValue_eq hexact, hexact]
    exact ⟨hx.symm, hpos, by omega⟩
  · intro houtside
    refine parseTapeLength_eq_error_iff.mpr ⟨rfl, ?_⟩
    intro n hn
    rw [hread] at hn
    obtain ⟨hvalue, hpos, hlt⟩ := tapeLength?_ofOrdinal_iff.mp hn
    obtain ⟨hlower, hupper, _⟩ := hrounds.mem_of_length hx hvalue hpos hlt
    rcases houtside with hle | hge <;> linarith
  · intro n hn
    rw [parseTapeLength_eq_ok_iff, hread] at hn
    obtain ⟨hvalue, hpos, hlt⟩ := tapeLength?_ofOrdinal_iff.mp hn
    obtain ⟨hlower, hupper, habs, hlength⟩ := hrounds.mem_of_length hx hvalue hpos hlt
    rw [habs] at hrounds
    refine ⟨hpos, by omega, ?_⟩
    rw [← hlength]
    exact hrounds.abs_sub_le_half hlower.le hupper

/-- Digits can be written for every list of values. -/
theorem Numeral.digits_map_digitChar {radix : Nat} (ds : List Nat) (h : ∀ d ∈ ds, d < radix) :
    Digits radix (ds.map Nat.digitChar) (ds.foldl (fun n d => n * radix + d) 0) := by
  induction ds using List.reverseRecOn with
  | nil => exact .nil
  | append_singleton ds d ih =>
      rw [List.map_append, List.foldl_append]
      have hd : d < radix := h d (List.mem_append_right _ List.mem_cons_self)
      exact .concat (ih fun d' hd' => h d' (List.mem_append_left _ hd')) ⟨hd, .inl rfl⟩

/-- A fraction and an exponent that make an integer, between blanks, and the least hexadecimal
number that is too large. -/
theorem parseTapeLength_of_exponent_and_radix :
    Writes " 12.50e1\n" 125 ∧ parseTapeLength " 12.50e1\n" = .ok 125 ∧
      Writes "0x20000000000000" (2 ^ 53) ∧
      parseTapeLength "0x20000000000000" = .error (.tapeLength "0x20000000000000") := by
  have hdecimal : Writes " 12.50e1\n" 125 := by
    refine ⟨[' '], "12.50e1".toList, ['\n'], rfl, List.forall_mem_singleton.mpr rfl,
      List.forall_mem_singleton.mpr rfl, ?_⟩
    have hliteral := Numeral.Literal.decimal .missing
      (.pointed (Numeral.digits_map_digitChar [1, 2] (by decide))
        (Numeral.digits_map_digitChar [5, 0] (by decide)) (by decide))
      (.written (.inl rfl) .missing (Numeral.digits_map_digitChar [1] (by decide)) (by decide))
    norm_num [signFactor] at hliteral
    exact hliteral
  have hradix : Writes "0x20000000000000" (2 ^ 53) := by
    refine ⟨[], "0x20000000000000".toList, [], rfl, List.forall_mem_nil _,
      List.forall_mem_nil _, ?_⟩
    have hmark : Numeral.RadixMark 'x' 16 := .inl ⟨.inl rfl, rfl⟩
    have hliteral := Numeral.Literal.radix hmark
      (Numeral.digits_map_digitChar (2 :: List.replicate 13 0) (by decide)) (by decide)
    norm_num at hliteral ⊢
    exact hliteral
  obtain ⟨hexact, _⟩ := parseTapeLength_of_literal hdecimal
  obtain ⟨_, hrefused, _⟩ := parseTapeLength_of_literal hradix
  exact ⟨hdecimal, hexact 125 (by norm_num) (by decide) (by decide), hradix,
    hrefused (.inr (le_refl _))⟩

end Brainfuck
