import Brainfuck.Proofs.CodeFrames
import Brainfuck.Proofs.FaultLines
import Mathlib.Data.Nat.Digits.Defs

/-!
# Lengths of code frames

What a frame holds besides the name of the program is a line of it, an indent within that line,
and five numbers with the words around them. None of the numbers is greater than the program is
long. So a fault can be shown in every program that leaves room for the name and the words when
its octets are counted three times: twice for the units of the line, and once for the indent.
-/
namespace Brainfuck

namespace Utf16

theorem length_le (cs : List Char) : length cs ≤ 2 * cs.length := by
  induction cs with
  | nil => exact Nat.le_refl 0
  | cons c cs ih =>
      have hunits := units_le c
      rw [length_cons, List.length_cons]
      omega

/-- The digits of a number below a thousand million. -/
theorem length_toString_le {n : Nat} (h : n < 10 ^ 9) : length (toString n).toList ≤ 18 := by
  have hdigits : (toString n).toList.length ≤ 9 := Nat.repr_length n 9 (by decide) h
  have hunits := length_le (toString n).toList
  omega

end Utf16

namespace Utf8

/-- How many characters have been decoded, the one under way included. -/
def Decoder.count (d : Decoder) : Nat := d.text.length + if d.pending.isSome then 1 else 0

namespace Decoder

theorem count_start_le (text : String) (b : UInt8) : (start text b).count ≤ text.length + 1 := by
  unfold start count
  split
  · simp
  · split <;> simp

theorem count_step_le (d : Decoder) (b : UInt8) : (d.step b).count ≤ d.count + 1 := by
  obtain ⟨text, pending⟩ := d
  cases pending with
  | none => exact count_start_le text b
  | some p =>
      unfold step
      dsimp only
      split
      · split <;> simp [count]
      · simpa [count] using count_start_le (text.push replacement) b

theorem count_foldl_le (bytes : List UInt8) (d : Decoder) :
    (bytes.foldl step d).count ≤ d.count + bytes.length := by
  induction bytes generalizing d with
  | nil => exact Nat.le_refl _
  | cons b bytes ih =>
      calc (bytes.foldl step (d.step b)).count
        _ ≤ (d.step b).count + bytes.length := ih (d.step b)
        _ ≤ d.count + 1 + bytes.length := Nat.add_le_add_right (d.count_step_le b) _
        _ = d.count + (b :: bytes).length := by rw [List.length_cons]; omega

theorem length_finish (d : Decoder) : d.finish.length = d.count := by
  unfold finish count
  split <;> simp

end Decoder

/-- Every octet ends one character at most. -/
theorem length_decode_le (bytes : List UInt8) : (decode bytes).length ≤ bytes.length := by
  have hcount := Decoder.count_foldl_le bytes .initial
  have hinitial : Decoder.initial.count = 0 := rfl
  unfold decode
  rw [Decoder.length_finish]
  omega

end Utf8

namespace Fault

theorem describe_eq_phrase_append (fault : Fault) :
    fault.describe = fault.phrase ++ integerText fault.position := by
  cases fault <;> rfl

/-- The words of a fault. -/
theorem length_phrase_le (fault : Fault) : Utf16.length fault.phrase.toList ≤ 52 := by
  rcases fault with ⟨_, _ | _⟩ | _ | _
  · exact (by decide +kernel : Utf16.length (phrase (.outOfBounds 0 .left)).toList ≤ 52)
  · exact (by decide +kernel : Utf16.length (phrase (.outOfBounds 0 .right)).toList ≤ 52)
  · exact (by decide +kernel : Utf16.length (phrase (.missingClosing 0)).toList ≤ 52)
  · exact (by decide +kernel : Utf16.length (phrase (.missingOpening 0)).toList ≤ 52)

theorem length_describe_le {fault : Fault} {pc : Nat} (hposition : fault.position = pc)
    (hpc : pc < 10 ^ 9) : Utf16.length fault.describe.toList ≤ 70 := by
  have hphrase := fault.length_phrase_le
  have hnumber := Utf16.length_toString_le hpc
  have hsafe : pc ≤ Binary64.maxSafeInteger := by
    unfold Binary64.maxSafeInteger
    omega
  rw [describe_eq_phrase_append, hposition, integerText_natCast hsafe, String.toList_append,
    Utf16.length_append]
  omega

end Fault

namespace CodeFrame

variable {p : Program} {fault : Fault} {pc : Nat}

theorem length_frameText (name : String) (fault : Fault) (line column : Nat) (shown : String) :
    Utf16.length (frameText name fault line column shown).toList =
      Utf16.length name.toList + Utf16.length fault.describe.toList +
        2 * Utf16.length (toString (line + 1)).toList +
        Utf16.length (toString (column + 1)).toList + Utf16.length shown.toList +
        (toString (line + 1)).length + column + 19 := by
  have hwords : Utf16.length ":".toList = 1 ∧ Utf16.length " error: ".toList = 8 ∧
      Utf16.length "\n".toList = 1 ∧ Utf16.length " | ".toList = 3 ∧
      Utf16.length "^".toList = 1 := by decide
  obtain ⟨hcolon, herror, hnewline, hbar, hcaret⟩ := hwords
  have hparts : frameText name fault line column shown =
      name ++ ":" ++ toString (line + 1) ++ ":" ++ toString (column + 1) ++ " error: " ++
        fault.describe ++ "\n" ++ (toString (line + 1) ++ " | " ++ shown ++ "\n") ++
        (spaces (toString (line + 1)).length ++ " | " ++ spaces column ++ "^") := rfl
  rw [hparts]
  simp only [String.toList_append, Utf16.length_append, length_spaces, hcolon, herror, hnewline,
    hbar, hcaret]
  omega

theorem length_chop_le (last : UInt8) (bytes : List UInt8) :
    (chop last bytes).length ≤ bytes.length := by
  unfold chop
  split <;> simp

/-- The line of an instruction is no longer than the program, and neither are the lines in front
of it. -/
theorem length_frameText_le {front line rest : List UInt8} {column : Nat}
    (hcut : CutAt p pc front line rest) (hcolumn : pc = front.length + column)
    (hposition : fault.position = pc) (hsize : p.size < 10 ^ 9) (name : String) :
    Utf16.length (frameText name fault (front.count newline) column
      (Utf8.decode (chop 13 line))).toList + 1 ≤
        3 * p.size + Utf16.length name.toList + 256 := by
  have htotal := hcut.size_eq
  have hlt := hcut.lt
  have hlines : front.count newline ≤ front.length := List.count_le_length
  have hnumber : (toString (front.count newline + 1)).length ≤ 9 :=
    Nat.repr_length _ 9 (by decide) (by omega)
  have hlineNumber := Utf16.length_toString_le (show front.count newline + 1 < 10 ^ 9 by omega)
  have hcolumnNumber := Utf16.length_toString_le (show column + 1 < 10 ^ 9 by omega)
  have hdescribe := Fault.length_describe_le hposition (by omega)
  have hunits := Utf16.length_le (Utf8.decode (chop 13 line)).toList
  have hcharacters := Utf8.length_decode_le (chop 13 line)
  have hchop := length_chop_le 13 line
  rw [String.length_toList] at hunits
  rw [length_frameText]
  omega

/-- In a program that is short enough, with its name, every fault can be shown. -/
theorem exists_renderLine (hposition : fault.position = pc)
    (hinstruction : p.instruction? pc = some fault.instruction) {name : String}
    (hsize : 3 * p.size + Utf16.length name.toList + 256 ≤ Utf16.maxLength) :
    ∃ text, renderLine p fault name = .ok text := by
  have hsmall : p.size < 10 ^ 9 := by
    unfold Utf16.maxLength at hsize
    omega
  have hsafe : p.size ≤ Binary64.maxSafeInteger := by
    unfold Binary64.maxSafeInteger
    omega
  obtain ⟨front, line, rest, column, hcut, hcolumn, _, _, hframe⟩ :=
    exists_frame hposition hinstruction hsafe
  have hlength := length_frameText_le hcut hcolumn hposition hsmall name
  have htotal := hcut.size_eq
  have hchop := length_chop_le 13 line
  have hrender := (hframe name _).mpr ⟨⟨by omega, by omega⟩, rfl⟩
  have hnewline : Utf16.length "\n".toList = 1 := rfl
  refine ⟨_, renderLine_eq_ok_iff.mpr ⟨_, hrender, ?_, rfl⟩⟩
  rw [String.toList_append, Utf16.length_append, hnewline]
  omega

end CodeFrame

end Brainfuck
