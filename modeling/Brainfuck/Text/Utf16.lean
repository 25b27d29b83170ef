/-!
# Lengths in UTF-16 units

The length of a text where it is kept in units of sixteen bits: a character beyond the
first 65536 takes two of them. There is a greatest length, and no longer text can be made.
-/
namespace Brainfuck.Utf16

/-- The length of a character. -/
def units (c : Char) : Nat := if c.toNat < 0x10000 then 1 else 2

/-- The length of a text. -/
def length (cs : List Char) : Nat := cs.foldl (fun n c => n + units c) 0

/-- The greatest length of a text: 24 less than two to the power of 29. -/
def maxLength : Nat := 536870888

@[simp] theorem length_nil : length [] = 0 := rfl

theorem foldl_units (cs : List Char) (n : Nat) :
    cs.foldl (fun n c => n + units c) n = n + length cs := by
  unfold length
  induction cs generalizing n with
  | nil => rfl
  | cons c cs ih => rw [List.foldl_cons, List.foldl_cons, ih, ih (0 + units c)]; omega

theorem length_cons (c : Char) (cs : List Char) : length (c :: cs) = units c + length cs := by
  rw [length, List.foldl_cons, foldl_units, Nat.zero_add]

@[simp] theorem length_append (cs ds : List Char) :
    length (cs ++ ds) = length cs + length ds := by
  rw [length, List.foldl_append, foldl_units]
  rfl

theorem length_replicate (count : Nat) (c : Char) :
    length (List.replicate count c) = count * units c := by
  induction count with
  | zero => simp
  | succ count ih => rw [List.replicate_succ, length_cons, ih, Nat.succ_mul, Nat.add_comm]

theorem units_le (c : Char) : units c ≤ 2 := by
  unfold units
  split <;> omega

end Brainfuck.Utf16
