/-!
# Text as UTF-8 octets

A program, its input and its diagnostics are octets; text enters and leaves through UTF-8.
Encoding is total. Decoding is total as well: every maximal ill-formed subsequence of
octets becomes one replacement character, and a byte order mark is an ordinary character.

The decoder is a fold over the octets. Between two octets it holds the text decoded so far
and, inside a character, how many octets are still owed and the range the next one must
lie in. The narrowed ranges after the lead octets `E0`, `ED`, `F0` and `F4` rule out
overlong forms, surrogates and values above `10FFFF`, so no completed value has to be
checked afterwards.
-/
namespace Brainfuck.Utf8

def encode (text : String) : List UInt8 :=
  text.toList.flatMap String.utf8EncodeChar

@[simp] theorem encode_empty : encode "" = [] := rfl

@[simp] theorem encode_append (s t : String) : encode (s ++ t) = encode s ++ encode t := by
  simp [encode]

/-- The character that stands for an ill-formed subsequence. -/
def replacement : Char := '\uFFFD'

/-- A character of which some octets have been read: its value so far, the number of
octets still owed, and the bounds of the next one. -/
structure Partial where
  value : Nat
  owed : Nat
  lower : UInt8
  upper : UInt8
  deriving DecidableEq, Repr

/-- What a lead octet announces; `none` for an octet that starts no character. -/
def Partial.ofLead? (b : UInt8) : Option Partial :=
  if 0xC2 ≤ b ∧ b ≤ 0xDF then some ⟨b.toNat - 0xC0, 1, 0x80, 0xBF⟩
  else if b = 0xE0 then some ⟨0, 2, 0xA0, 0xBF⟩
  else if b = 0xED then some ⟨0xD, 2, 0x80, 0x9F⟩
  else if 0xE1 ≤ b ∧ b ≤ 0xEF then some ⟨b.toNat - 0xE0, 2, 0x80, 0xBF⟩
  else if b = 0xF0 then some ⟨0, 3, 0x90, 0xBF⟩
  else if 0xF1 ≤ b ∧ b ≤ 0xF3 then some ⟨b.toNat - 0xF0, 3, 0x80, 0xBF⟩
  else if b = 0xF4 then some ⟨4, 3, 0x80, 0x8F⟩
  else none

/-- The text decoded so far and the character under way, if any. -/
structure Decoder where
  text : String
  pending : Option Partial
  deriving DecidableEq, Repr

def Decoder.initial : Decoder := ⟨"", none⟩

/-- Reads an octet that must start a character. -/
def Decoder.start (text : String) (b : UInt8) : Decoder :=
  if b < 0x80 then ⟨text.push (Char.ofNat b.toNat), none⟩
  else
    match Partial.ofLead? b with
    | some p => ⟨text, some p⟩
    | none => ⟨text.push replacement, none⟩

/-- Reads one octet. An octet outside the expected range ends the character under way
as ill-formed and is then read as the start of the next one. -/
def Decoder.step (d : Decoder) (b : UInt8) : Decoder :=
  match d.pending with
  | none => Decoder.start d.text b
  | some p =>
    if p.lower ≤ b ∧ b ≤ p.upper then
      let value := p.value * 64 + (b.toNat - 0x80)
      if p.owed ≤ 1 then ⟨d.text.push (Char.ofNat value), none⟩
      else ⟨d.text, some ⟨value, p.owed - 1, 0x80, 0xBF⟩⟩
    else Decoder.start (d.text.push replacement) b

/-- Ends the input; a character still under way is ill-formed. -/
def Decoder.finish (d : Decoder) : String :=
  if d.pending.isSome then d.text.push replacement else d.text

def decode (bytes : List UInt8) : String :=
  (bytes.foldl Decoder.step Decoder.initial).finish

@[simp] theorem decode_nil : decode [] = "" := rfl

end Brainfuck.Utf8
