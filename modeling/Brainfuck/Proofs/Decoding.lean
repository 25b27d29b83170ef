import Brainfuck.Text.Utf8

/-!
# Decoding what was encoded

The decoder reads the octets of a character one by one and ends with the character itself
behind the text that it had before, so decoding undoes encoding. A character of more than
one octet is followed through its octets: the lead octet announces how many are owed and
gives the first bits of the value, and each octet behind it adds six bits. That the value is
a character at all keeps the second octet inside the range that the lead octet allows.
-/
namespace Brainfuck.Utf8

namespace Partial

/-- The lead octets of two announce no overlong form, so the smallest two are missing. -/
theorem ofLead?_of_two : ∀ bits : Fin 32, 2 ≤ bits.val →
    ofLead? (UInt8.ofNat (bits + 0xC0)) = some ⟨bits, 1, 0x80, 0xBF⟩ := by
  decide

theorem ofLead?_of_three : ∀ bits : Fin 16, ofLead? (UInt8.ofNat (bits + 0xE0)) =
    some ⟨bits, 2, if bits.val = 0 then 0xA0 else 0x80, if bits.val = 13 then 0x9F else 0xBF⟩ := by
  decide

theorem ofLead?_of_four : ∀ bits : Fin 5, ofLead? (UInt8.ofNat (bits + 0xF0)) =
    some ⟨bits, 3, if bits.val = 0 then 0x90 else 0x80, if bits.val = 4 then 0x8F else 0xBF⟩ := by
  decide

end Partial

namespace Decoder

variable {text : String} {n : Nat}

theorem step_of_lead {p : Partial} (hn : 0x80 ≤ n) (hn' : n < 0x100)
    (h : Partial.ofLead? (UInt8.ofNat n) = some p) :
    step ⟨text, none⟩ (UInt8.ofNat n) = ⟨text, some p⟩ := by
  have hlead : ¬ UInt8.ofNat n < 0x80 := by
    rw [UInt8.lt_iff_toNat_lt, UInt8.toNat_ofNat', Nat.mod_eq_of_lt hn']
    exact Nat.not_lt_of_le hn
  simp only [step, start, if_neg hlead, h]

/-- An octet behind the lead octet adds six bits to the value. -/
theorem step_of_continuation {p : Partial} {bits : Nat} (hbits : bits < 0x40)
    (hlower : p.lower.toNat ≤ bits + 0x80) (hupper : bits + 0x80 ≤ p.upper.toNat) :
    step ⟨text, some p⟩ (UInt8.ofNat (bits + 0x80)) =
      if p.owed ≤ 1 then ⟨text.push (Char.ofNat (p.value * 64 + bits)), none⟩
      else ⟨text, some ⟨p.value * 64 + bits, p.owed - 1, 0x80, 0xBF⟩⟩ := by
  have hvalue : (UInt8.ofNat (bits + 0x80)).toNat = bits + 0x80 := by
    rw [UInt8.toNat_ofNat', Nat.mod_eq_of_lt (by omega)]
  have hrange : p.lower ≤ UInt8.ofNat (bits + 0x80) ∧ UInt8.ofNat (bits + 0x80) ≤ p.upper := by
    rw [UInt8.le_iff_toNat_le, UInt8.le_iff_toNat_le, hvalue]
    exact ⟨hlower, hupper⟩
  simp only [step, if_pos hrange, hvalue, Nat.add_sub_cancel]

/-- Only the second octet of a character may have a narrower range. -/
theorem step_of_tail {value owed bits : Nat} (hbits : bits < 0x40) :
    step ⟨text, some ⟨value, owed, 0x80, 0xBF⟩⟩ (UInt8.ofNat (bits + 0x80)) =
      if owed ≤ 1 then ⟨text.push (Char.ofNat (value * 64 + bits)), none⟩
      else ⟨text, some ⟨value * 64 + bits, owed - 1, 0x80, 0xBF⟩⟩ :=
  step_of_continuation hbits (Nat.le_add_left 0x80 bits)
    (Nat.add_le_add_right (Nat.le_of_lt_succ hbits) 0x80)

theorem foldl_of_two (hlower : 0x80 ≤ n) (hupper : n ≤ 0x7FF) :
    [UInt8.ofNat (n / 64 % 32 + 0xC0), UInt8.ofNat (n % 64 + 0x80)].foldl step ⟨text, none⟩ =
      ⟨text.push (Char.ofNat n), none⟩ := by
  have hlead := Partial.ofLead?_of_two ⟨n / 64 % 32, by omega⟩ (by dsimp only; omega)
  have hvalue : n / 64 % 32 * 64 + n % 64 = n := by omega
  rw [List.foldl_cons, step_of_lead (by omega) (by omega) hlead, List.foldl_cons,
    step_of_tail (by omega)]
  simp [hvalue]

theorem foldl_of_three (hlower : 0x800 ≤ n) (hupper : n ≤ 0xFFFF)
    (hscalar : n < 0xD800 ∨ 0xDFFF < n) :
    [UInt8.ofNat (n / 4096 % 16 + 0xE0), UInt8.ofNat (n / 64 % 64 + 0x80),
        UInt8.ofNat (n % 64 + 0x80)].foldl step ⟨text, none⟩ =
      ⟨text.push (Char.ofNat n), none⟩ := by
  have hlead := Partial.ofLead?_of_three ⟨n / 4096 % 16, by omega⟩
  have hvalue : (n / 4096 % 16 * 64 + n / 64 % 64) * 64 + n % 64 = n := by omega
  have hsecond : (if n / 4096 % 16 = 0 then 0xA0 else 0x80 : UInt8).toNat ≤
      n / 64 % 64 + 0x80 := by
    split
    · change 0xA0 ≤ _
      omega
    · change 0x80 ≤ _
      omega
  have hsecond' : n / 64 % 64 + 0x80 ≤
      (if n / 4096 % 16 = 13 then 0x9F else 0xBF : UInt8).toNat := by
    split
    · change _ ≤ 0x9F
      omega
    · change _ ≤ 0xBF
      omega
  rw [List.foldl_cons, step_of_lead (by omega) (by omega) hlead, List.foldl_cons,
    step_of_continuation (by omega) hsecond hsecond', if_neg (by simp), List.foldl_cons,
    step_of_tail (by omega)]
  simp [hvalue]

theorem foldl_of_four (hlower : 0x10000 ≤ n) (hupper : n < 0x110000) :
    [UInt8.ofNat (n / 262144 % 8 + 0xF0), UInt8.ofNat (n / 4096 % 64 + 0x80),
        UInt8.ofNat (n / 64 % 64 + 0x80), UInt8.ofNat (n % 64 + 0x80)].foldl step ⟨text, none⟩ =
      ⟨text.push (Char.ofNat n), none⟩ := by
  have hlead := Partial.ofLead?_of_four ⟨n / 262144 % 8, by omega⟩
  have hvalue : ((n / 262144 % 8 * 64 + n / 4096 % 64) * 64 + n / 64 % 64) * 64 + n % 64 = n := by
    omega
  have hsecond : (if n / 262144 % 8 = 0 then 0x90 else 0x80 : UInt8).toNat ≤
      n / 4096 % 64 + 0x80 := by
    split
    · change 0x90 ≤ _
      omega
    · change 0x80 ≤ _
      omega
  have hsecond' : n / 4096 % 64 + 0x80 ≤
      (if n / 262144 % 8 = 4 then 0x8F else 0xBF : UInt8).toNat := by
    split
    · change _ ≤ 0x8F
      omega
    · change _ ≤ 0xBF
      omega
  rw [List.foldl_cons, step_of_lead (by omega) (by omega) hlead, List.foldl_cons,
    step_of_continuation (by omega) hsecond hsecond', if_neg (by simp), List.foldl_cons,
    step_of_tail (by omega), if_neg (by simp), List.foldl_cons,
    step_of_tail (by omega)]
  simp [hvalue]

/-- Reading the octets of a character adds the character. -/
theorem foldl_encodeChar (text : String) (c : Char) :
    (String.utf8EncodeChar c).foldl step ⟨text, none⟩ = ⟨text.push c, none⟩ := by
  have hscalar : c.val.toNat < 0xD800 ∨ 0xDFFF < c.val.toNat ∧ c.val.toNat < 0x110000 := c.valid
  have hchar : Char.ofNat c.val.toNat = c := Char.ofNat_toNat c
  generalize hn : c.val.toNat = n at hscalar hchar
  unfold String.utf8EncodeChar
  rw [hn, ← hchar]
  dsimp only
  split
  · have hascii : UInt8.ofNat n < 0x80 := by
      rw [UInt8.lt_iff_toNat_lt, UInt8.toNat_ofNat', Nat.mod_eq_of_lt (by omega)]
      exact Nat.lt_succ_of_le ‹_›
    have hvalue : (UInt8.ofNat n).toNat = n := by
      rw [UInt8.toNat_ofNat', Nat.mod_eq_of_lt (by omega)]
    simp only [List.foldl_cons, List.foldl_nil, step, start, if_pos hascii, hvalue]
  · split
    · exact foldl_of_two (by omega) (by omega)
    · split
      · exact foldl_of_three (by omega) (by omega) (hscalar.imp_right And.left)
      · exact foldl_of_four (by omega) (by omega)

theorem foldl_encode (text s : String) :
    (encode s).foldl step ⟨text, none⟩ = ⟨text ++ s, none⟩ := by
  obtain ⟨cs, rfl⟩ : ∃ cs, s = String.ofList cs := ⟨s.toList, s.ofList_toList.symm⟩
  unfold encode
  rw [String.toList_ofList]
  induction cs generalizing text with
  | nil => simp
  | cons c cs ih =>
      rw [List.flatMap_cons, List.foldl_append, foldl_encodeChar, ih]
      congr 1
      rw [String.ext_iff]
      simp

end Decoder

/-- Decoding undoes encoding. -/
@[simp] theorem decode_encode (s : String) : decode (encode s) = s := by
  unfold decode
  rw [show Decoder.initial = ⟨"", none⟩ from rfl, Decoder.foldl_encode]
  simp [Decoder.finish]

end Brainfuck.Utf8
