import Brainfuck.Text.Utf8

/-!
# The octets of a text

Characters of one octet are the ASCII ones, and the octets of all others are outside ASCII. An
ASCII octet in the encoding of a text is therefore a whole character of it, and cuts the text
at a place between characters. What stands before such an octet and behind it is again the
encoding of a text.

A character has at least one octet, so offsets in octets and in characters agree up to a place
in the text exactly if all characters before it are ASCII.
-/
namespace Brainfuck.Utf8

/-- The octets of a character that takes more than one are outside ASCII. -/
theorem le_of_mem_encodeChar {c : Char} (hc : 1 < (String.utf8EncodeChar c).length)
    {b : UInt8} (hb : b ∈ String.utf8EncodeChar c) : 0x80 ≤ b := by
  have hlarge : ∀ n, 0x80 ≤ n → n < 0x100 → 0x80 ≤ UInt8.ofNat n := by
    intro n hn hn'
    rw [UInt8.le_iff_toNat_le, UInt8.toNat_ofNat', Nat.mod_eq_of_lt hn']
    exact hn
  unfold String.utf8EncodeChar at hb hc
  dsimp only at hb hc
  split at hb
  · rename_i hascii
    rw [if_pos hascii] at hc
    simp at hc
  · split at hb
    · simp only [List.mem_cons, List.not_mem_nil, or_false] at hb
      rcases hb with rfl | rfl <;> exact hlarge _ (by omega) (by omega)
    · split at hb
      · simp only [List.mem_cons, List.not_mem_nil, or_false] at hb
        rcases hb with rfl | rfl | rfl <;> exact hlarge _ (by omega) (by omega)
      · simp only [List.mem_cons, List.not_mem_nil, or_false] at hb
        rcases hb with rfl | rfl | rfl | rfl <;> exact hlarge _ (by omega) (by omega)

section
variable {c d : Char} {b : UInt8}

/-- The only octet of a character is its number. -/
theorem toNat_of_encodeChar (h : String.utf8EncodeChar c = [b]) :
    b.toNat = c.val.toNat ∧ b < 0x80 := by
  have hsize : c.utf8Size = 1 := by
    rw [← String.length_utf8EncodeChar, h, List.length_singleton]
  have hcode : c.val.toNat ≤ 127 :=
    UInt32.le_iff_toNat_le.mp (Char.utf8Size_eq_one_iff.mp hsize)
  rw [String.utf8EncodeChar_eq_singleton hsize] at h
  obtain rfl : c.val.toUInt8 = b := List.singleton_inj.mp h
  have hvalue : c.val.toUInt8.toNat = c.val.toNat := by
    rw [UInt32.toNat_toUInt8, Nat.mod_eq_of_lt (by omega)]
  refine ⟨hvalue, ?_⟩
  rw [UInt8.lt_iff_toNat_lt, hvalue]
  exact Nat.lt_succ_of_le hcode

/-- A character of one octet shares that octet with no other character. -/
theorem eq_of_mem_encodeChar (hc : String.utf8EncodeChar c = [b])
    (hb : b ∈ String.utf8EncodeChar d) : d = c := by
  obtain ⟨hvalue, hascii⟩ := toNat_of_encodeChar hc
  by_cases hlong : 1 < (String.utf8EncodeChar d).length
  · exact absurd (le_of_mem_encodeChar hlong hb) (UInt8.not_le.mpr hascii)
  · have hpos := d.utf8Size_pos
    rw [← String.length_utf8EncodeChar] at hpos
    obtain ⟨e, he⟩ := List.length_eq_one_iff.mp (by omega : (String.utf8EncodeChar d).length = 1)
    rw [he, List.mem_singleton] at hb
    rw [← hb] at he
    apply Char.ext
    apply UInt32.toNat_inj.mp
    rw [← hvalue, (toNat_of_encodeChar he).1]

/-- A character of one octet cuts the encoding of a text at a place between characters. -/
theorem exists_cut (hc : String.utf8EncodeChar c = [b]) {text : String}
    {front rest : List UInt8} (h : encode text = front ++ b :: rest) :
    ∃ before after : String, text.toList = before.toList ++ c :: after.toList ∧
      encode before = front ∧ encode after = rest := by
  unfold encode at h
  generalize text.toList = cs at h ⊢
  induction cs generalizing front with
  | nil => simp at h
  | cons d cs ih =>
      rw [List.flatMap_cons] at h
      by_cases hlength : (String.utf8EncodeChar d).length ≤ front.length
      · obtain ⟨more, rfl⟩ := List.prefix_of_prefix_length_le ⟨_, h⟩ ⟨_, rfl⟩ hlength
        rw [List.append_assoc] at h
        obtain ⟨before, after, rfl, rfl, rfl⟩ := ih (List.append_cancel_left h)
        exact ⟨String.ofList (d :: before.toList), after, by simp, by simp [encode], rfl⟩
      · -- The octet belongs to the first character, which has no other.
        have hoctet : (String.utf8EncodeChar d)[front.length]? = some b := by
          rw [← List.getElem?_append_left (Nat.lt_of_not_le hlength), h,
            List.getElem?_append_right (Nat.le_refl _), Nat.sub_self, List.getElem?_cons_zero]
        obtain rfl := eq_of_mem_encodeChar hc (List.mem_of_getElem? hoctet)
        obtain rfl : front = [] := by
          rw [hc, List.length_singleton] at hlength
          exact List.length_eq_zero_iff.mp (by omega)
        rw [hc] at h
        refine ⟨"", String.ofList cs, by simp, rfl, ?_⟩
        simpa [encode] using h

theorem mem_encode_of_mem (hc : String.utf8EncodeChar c = [b]) {text : String}
    (h : c ∈ text.toList) : b ∈ encode text := by
  refine List.mem_flatMap.mpr ⟨c, h, ?_⟩
  rw [hc]
  exact List.mem_singleton_self b

end

/-- Octets that are the encoding of a text. -/
def WellFormed (bytes : List UInt8) : Prop := ∃ text, encode text = bytes

theorem WellFormed.of_append_cons {c : Char} {b : UInt8} {front rest : List UInt8}
    (h : WellFormed (front ++ b :: rest)) (hc : String.utf8EncodeChar c = [b]) :
    WellFormed front ∧ WellFormed rest := by
  obtain ⟨text, htext⟩ := h
  obtain ⟨before, after, _, hbefore, hafter⟩ := exists_cut hc htext
  exact ⟨⟨before, hbefore⟩, ⟨after, hafter⟩⟩

theorem length_le_length_flatMap (cs : List Char) :
    cs.length ≤ (cs.flatMap String.utf8EncodeChar).length := by
  induction cs with
  | nil => exact Nat.le_refl _
  | cons c cs ih =>
      have hpos := c.utf8Size_pos
      rw [List.flatMap_cons, List.length_append, String.length_utf8EncodeChar, List.length_cons]
      omega

theorem length_le_length_encode (text : String) : text.length ≤ (encode text).length := by
  rw [← String.length_toList]
  exact length_le_length_flatMap text.toList

/-- A text has as many octets as characters exactly if all of them are ASCII. -/
theorem length_encode_eq_iff (text : String) :
    (encode text).length = text.length ↔ ∀ c ∈ text.toList, c.val ≤ 127 := by
  unfold encode
  rw [← String.length_toList]
  induction text.toList with
  | nil => simp
  | cons c cs ih =>
      have hpos := c.utf8Size_pos
      have hle := length_le_length_flatMap cs
      rw [List.flatMap_cons, List.length_append, String.length_utf8EncodeChar, List.length_cons,
        List.forall_mem_cons, ← ih, ← Char.utf8Size_eq_one_iff]
      omega

end Brainfuck.Utf8
