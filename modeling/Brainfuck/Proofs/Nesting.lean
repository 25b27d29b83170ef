import Brainfuck.Bracket.Scan

/-!
# Nesting of brackets

A segment of octets is balanced if no closing bracket in it comes before its opening and
none of its brackets is left over. Reading a segment from the left with a number of loops
already open gives the number of loops open behind it, or shows that it closes too many;
balanced segments are those that lead from no open loop to no open loop.

The two scans recognise balanced segments: a scan finds a bracket exactly if the segment
between is balanced. Brackets that are not found are therefore unmatched in the text, and
a program that is balanced as a whole has none.

Scans see brackets only. If the brackets of one program are carried to those of another, and
all octets that are dropped on the way are inert for a scan, what a scan finds is carried
along with them.
-/
namespace Brainfuck

/-- The octets at the positions from `i` up to but excluding `j`. -/
def Program.slice (p : Program) (i j : Nat) : List UInt8 := (p.toList.take j).drop i

theorem Program.instruction?_eq_some_iff {p : Program} {pc : Nat} {i : Instruction} :
    p.instruction? pc = some i ↔ p.toList[pc]? = some i.toByte := by
  rw [p.instruction?_eq]
  cases p.toList[pc]? with
  | none => simp
  | some b => simpa using Instruction.ofByte?_eq_some_iff

@[simp] theorem Program.slice_self (p : Program) (i : Nat) : p.slice i i = [] := by
  simp [slice]

theorem Program.slice_eq_cons {p : Program} {i j : Nat} {b : UInt8} (hij : i < j)
    (hb : p.toList[i]? = some b) : p.slice i j = b :: p.slice (i + 1) j := by
  obtain ⟨hi, rfl⟩ := List.getElem?_eq_some_iff.mp hb
  have hlen : i < (p.toList.take j).length := by rw [List.length_take]; omega
  unfold slice
  rw [List.drop_eq_getElem_cons hlen, List.getElem_take]

theorem Program.slice_succ {p : Program} {i j : Nat} {b : UInt8} (hij : i ≤ j)
    (hb : p.toList[j]? = some b) : p.slice i (j + 1) = p.slice i j ++ [b] := by
  obtain ⟨hj, rfl⟩ := List.getElem?_eq_some_iff.mp hb
  have hlen : i ≤ (p.toList.take j).length := by rw [List.length_take]; omega
  unfold slice
  rw [← List.take_append_getElem hj, List.drop_append_of_le_length hlen]

theorem Program.slice_zero_size (p : Program) : p.slice 0 p.size = p.toList := by
  unfold slice
  rw [← p.length_toList, List.take_length, List.drop_zero]

theorem Program.slice_append (p : Program) {i j k : Nat} (hij : i ≤ j) (hjk : j ≤ k) :
    p.slice i j ++ p.slice j k = p.slice i k := by
  unfold slice
  rw [show p.toList.take j = (p.toList.take k).take j by
    rw [List.take_take, Nat.min_eq_left hjk]]
  generalize p.toList.take k = bytes
  rw [List.drop_take]
  have h := List.take_append_drop (j - i) (bytes.drop i)
  rwa [List.drop_drop, Nat.add_sub_cancel' hij] at h

/-- The octets from a position on start with the given ones. -/
def Program.Holds (p : Program) (i : Nat) (bytes : List UInt8) : Prop := bytes <+: p.toList.drop i

section
variable {p : Program} {i : Nat} {b : UInt8} {bytes front rest : List UInt8}

theorem Program.Holds.head (h : p.Holds i (b :: bytes)) : p.toList[i]? = some b := by
  obtain ⟨back, hback⟩ := h
  rw [← List.head?_drop, ← hback]
  rfl

theorem Program.Holds.left (h : p.Holds i (front ++ rest)) : p.Holds i front :=
  (List.prefix_append front rest).trans h

theorem Program.Holds.right (h : p.Holds i (front ++ rest)) :
    p.Holds (i + front.length) rest := by
  obtain ⟨back, hback⟩ := h
  refine ⟨back, ?_⟩
  rw [← List.drop_drop, ← hback, List.append_assoc, List.drop_left]

theorem Program.Holds.tail (h : p.Holds i (b :: bytes)) : p.Holds (i + 1) bytes :=
  Program.Holds.right (show p.Holds i ([b] ++ bytes) from h)

theorem Program.Holds.slice_eq (h : p.Holds i bytes) : p.slice i (i + bytes.length) = bytes := by
  obtain ⟨back, hback⟩ := h
  rw [slice, List.drop_take, ← hback, Nat.add_sub_cancel_left, List.take_left]

end

namespace Bracket

def openings (bytes : List UInt8) : Nat := bytes.count Instruction.opening.toByte

def closings (bytes : List UInt8) : Nat := bytes.count Instruction.closing.toByte

section
variable (rest : List UInt8)

@[simp] theorem openings_nil : openings [] = 0 := rfl

@[simp] theorem closings_nil : closings [] = 0 := rfl

@[simp] theorem openings_opening :
    openings (Instruction.opening.toByte :: rest) = openings rest + 1 := by
  simp [openings]

@[simp] theorem closings_opening :
    closings (Instruction.opening.toByte :: rest) = closings rest := by
  simp [closings, Instruction.toByte]

@[simp] theorem openings_closing :
    openings (Instruction.closing.toByte :: rest) = openings rest := by
  simp [openings, Instruction.toByte]

@[simp] theorem closings_closing :
    closings (Instruction.closing.toByte :: rest) = closings rest + 1 := by
  simp [closings]

theorem openings_other {b : UInt8} (h : b ≠ Instruction.opening.toByte) :
    openings (b :: rest) = openings rest := by
  simp [openings, h]

theorem closings_other {b : UInt8} (h : b ≠ Instruction.closing.toByte) :
    closings (b :: rest) = closings rest := by
  simp [closings, h]

end

/-- Every part from the start has at least as many opening brackets as closing ones, and
the whole has as many of both. -/
structure Balanced (bytes : List UInt8) : Prop where
  covered : ∀ k, closings (bytes.take k) ≤ openings (bytes.take k)
  settled : openings bytes = closings bytes

/-- The number of open loops behind one octet; `none` if it closes a loop that is not open. -/
def tally (d : Nat) (b : UInt8) : Option Nat :=
  if b = Instruction.opening.toByte then some (d + 1)
  else if b = Instruction.closing.toByte then
    match d with
    | 0 => none
    | d + 1 => some d
  else some d

section
variable {b : UInt8} {d e e' : Nat}

@[simp] theorem tally_opening (d : Nat) : tally d Instruction.opening.toByte = some (d + 1) := by
  simp [tally]

@[simp] theorem tally_closing_zero : tally 0 Instruction.closing.toByte = none := by
  simp [tally, Instruction.toByte]

@[simp] theorem tally_closing_succ (d : Nat) :
    tally (d + 1) Instruction.closing.toByte = some d := by
  simp [tally, Instruction.toByte]

theorem tally_other (ho : b ≠ Instruction.opening.toByte) (hc : b ≠ Instruction.closing.toByte)
    (d : Nat) : tally d b = some d := by
  simp [tally, ho, hc]

theorem tally_eq_none_iff : tally d b = none ↔ d = 0 ∧ b = Instruction.closing.toByte := by
  unfold tally
  grind [Instruction.toByte]

theorem tally_injective (h : tally e b = some d) (h' : tally e' b = some d) : e = e' := by
  unfold tally at h h'
  grind

/-- Read from the right, every octet has a number of open loops before it, except for an
opening bracket that leaves no loop open. -/
theorem exists_tally (d : Nat) (b : UInt8) :
    (∃ e, tally e b = some d) ∨ d = 0 ∧ b = Instruction.opening.toByte := by
  by_cases ho : b = Instruction.opening.toByte
  · subst ho
    cases d with
    | zero => exact .inr ⟨rfl, rfl⟩
    | succ d => exact .inl ⟨d, tally_opening d⟩
  · by_cases hc : b = Instruction.closing.toByte
    · exact .inl ⟨d + 1, hc ▸ tally_closing_succ d⟩
    · exact .inl ⟨d, tally_other ho hc d⟩

theorem tally_lt {d' : Nat} (h : tally e b = some d) (h' : tally e' b = some d')
    (hd : d < d') : e < e' := by
  unfold tally at h h'
  grind

theorem tally_add (h : tally d b = some e) (k : Nat) : tally (d + k) b = some (e + k) := by
  unfold tally at h ⊢
  grind

end

/-- The number of open loops behind a segment that is entered with `d` open loops; `none`
if the segment closes a loop that is not open. -/
def nesting (d : Nat) (bytes : List UInt8) : Option Nat := bytes.foldlM tally d

@[simp] theorem nesting_nil (d : Nat) : nesting d [] = some d := rfl

theorem nesting_cons (d : Nat) (b : UInt8) (rest : List UInt8) :
    nesting d (b :: rest) = (tally d b).bind fun e => nesting e rest := by
  simp [nesting]

theorem nesting_append (d : Nat) (left right : List UInt8) :
    nesting d (left ++ right) = (nesting d left).bind fun e => nesting e right := by
  simp [nesting]

theorem nesting_concat (d : Nat) (bytes : List UInt8) (b : UInt8) :
    nesting d (bytes ++ [b]) = (nesting d bytes).bind fun e => tally e b := by
  simp [nesting]

/-- Loops that are open all along do not matter. -/
theorem nesting_add {d e : Nat} {bytes : List UInt8} (h : nesting d bytes = some e) (k : Nat) :
    nesting (d + k) bytes = some (e + k) := by
  induction bytes generalizing d with
  | nil => simpa using h
  | cons b rest ih =>
      rw [nesting_cons, Option.bind_eq_some_iff] at h
      obtain ⟨d', ht, h⟩ := h
      rw [nesting_cons, tally_add ht k]
      exact ih h

/-- The number of open loops is the difference of the counts, and never negative. -/
theorem nesting_eq_some_iff {d e : Nat} {bytes : List UInt8} :
    nesting d bytes = some e ↔
      (∀ k, closings (bytes.take k) ≤ d + openings (bytes.take k)) ∧
        d + openings bytes = e + closings bytes := by
  induction bytes generalizing d with
  | nil => simp [openings, closings]
  | cons b rest ih =>
      -- The empty part says nothing, so the first octet can be read on both sides.
      have hparts : (∀ k, closings ((b :: rest).take k) ≤ d + openings ((b :: rest).take k)) ↔
          ∀ k, closings (b :: rest.take k) ≤ d + openings (b :: rest.take k) := by
        constructor
        · intro h k
          exact h (k + 1)
        · intro h k
          cases k with
          | zero => simp
          | succ k => exact h k
      rw [hparts]
      rw [nesting_cons]
      by_cases ho : b = Instruction.opening.toByte
      · subst ho
        simp only [tally_opening, Option.bind_some, openings_opening, closings_opening, ih]
        refine and_congr (forall_congr' fun k => ?_) ?_ <;> omega
      · by_cases hc : b = Instruction.closing.toByte
        · subst hc
          simp only [openings_closing, closings_closing]
          cases d with
          | zero =>
              have hfail : ¬ ∀ k, closings (rest.take k) + 1 ≤ 0 + openings (rest.take k) := by
                intro h
                simpa using h 0
              exact iff_of_false (by simp) fun h => hfail h.1
          | succ d =>
              simp only [tally_closing_succ, Option.bind_some, ih]
              refine and_congr (forall_congr' fun k => ?_) ?_ <;> omega
        · simp only [tally_other ho hc, Option.bind_some, openings_other _ ho,
            closings_other _ hc]
          exact ih

theorem balanced_iff_nesting {bytes : List UInt8} :
    Balanced bytes ↔ nesting 0 bytes = some 0 := by
  rw [nesting_eq_some_iff]
  simp only [Nat.zero_add]
  exact ⟨fun h => ⟨h.covered, h.settled⟩, fun h => ⟨h.1, h.2⟩⟩

instance (bytes : List UInt8) : Decidable (Balanced bytes) :=
  decidable_of_iff _ balanced_iff_nesting.symm

section
variable {p : Program} {b : UInt8} {d e i j : Nat}

/-- An octet hands the count of a forward scan on, or ends it. -/
theorem scanForwardFrom_of_tally (hb : p.toList[i]? = some b) (h : tally d b = some e) :
    scanForwardFrom p d i = scanForwardFrom p e (i + 1) := by
  by_cases ho : b = Instruction.opening.toByte
  · subst ho
    obtain rfl : d + 1 = e := by simpa using h
    exact scanForwardFrom_opening d (Program.instruction?_eq_some_iff.mpr hb)
  · by_cases hc : b = Instruction.closing.toByte
    · subst hc
      cases d with
      | zero => simp at h
      | succ d =>
          obtain rfl : d = e := by simpa using h
          exact scanForwardFrom_closing_succ d (Program.instruction?_eq_some_iff.mpr hb)
    · obtain rfl : d = e := by simpa [tally_other ho hc] using h
      apply scanForwardFrom_other
      · simp [Program.instruction?_eq_some_iff, hb, ho]
      · simp [Program.instruction?_eq_some_iff, hb, hc]

/-- An octet hands the count of a backward scan on, or ends it. -/
theorem scanBackwardFrom_of_tally (hb : p.toList[i]? = some b) (h : tally e b = some d) :
    scanBackwardFrom p d (i + 1) = scanBackwardFrom p e i := by
  by_cases ho : b = Instruction.opening.toByte
  · subst ho
    obtain rfl : e + 1 = d := by simpa using h
    exact scanBackwardFrom_opening_succ e (Program.instruction?_eq_some_iff.mpr hb)
  · by_cases hc : b = Instruction.closing.toByte
    · subst hc
      cases e with
      | zero => simp at h
      | succ e =>
          obtain rfl : e = d := by simpa using h
          exact scanBackwardFrom_closing e (Program.instruction?_eq_some_iff.mpr hb)
    · obtain rfl : e = d := by simpa [tally_other ho hc] using h
      apply scanBackwardFrom_other
      · simp [Program.instruction?_eq_some_iff, hb, ho]
      · simp [Program.instruction?_eq_some_iff, hb, hc]

/-- The forward scan finds the bracket that closes one loop more than are open. -/
theorem scanForwardFrom_eq_some_iff :
    scanForwardFrom p d i = some j ↔
      i ≤ j ∧ p.instruction? j = some .closing ∧ nesting d (p.slice i j) = some 0 := by
  induction hk : p.size - i generalizing d i with
  | zero =>
      rw [scanForwardFrom_end d (by omega)]
      refine iff_of_false (by simp) ?_
      intro h
      have hj := Program.lt_size_of_instruction?_eq_some h.2.1
      omega
  | succ k ih =>
      obtain ⟨b, hb⟩ : ∃ b, p.toList[i]? = some b :=
        ⟨_, List.getElem?_eq_getElem (by rw [p.length_toList]; omega)⟩
      cases ht : tally d b with
      | some e =>
          rw [scanForwardFrom_of_tally hb ht, ih (by omega)]
          constructor
          · intro h
            rw [Program.slice_eq_cons (by omega) hb, nesting_cons, ht]
            exact ⟨by omega, h.2⟩
          · intro h
            have hij : i ≠ j := by
              intro he
              subst he
              have hd : d = 0 := by simpa using h.2.2
              have hc : b = Instruction.closing.toByte := by
                simpa [hb] using Program.instruction?_eq_some_iff.mp h.2.1
              simp [hd, hc] at ht
            rw [Program.slice_eq_cons (by omega) hb, nesting_cons, ht] at h
            exact ⟨by omega, h.2⟩
      | none =>
          obtain ⟨rfl, rfl⟩ := tally_eq_none_iff.mp ht
          have hi : p.instruction? i = some .closing := Program.instruction?_eq_some_iff.mpr hb
          rw [scanForwardFrom_closing_zero hi]
          constructor
          · intro h
            obtain rfl : i = j := by simpa using h
            exact ⟨Nat.le_refl _, hi, by simp⟩
          · intro h
            by_cases hij : i = j
            · rw [hij]
            · rw [Program.slice_eq_cons (by omega) hb, nesting_cons, ht] at h
              simp at h

/-- The backward scan finds the bracket behind which exactly `d` loops are open. -/
theorem scanBackwardFrom_eq_some_iff (hi : i ≤ p.size) :
    scanBackwardFrom p d i = some j ↔
      j < i ∧ p.instruction? j = some .opening ∧ nesting 0 (p.slice (j + 1) i) = some d := by
  induction i generalizing d with
  | zero => simp
  | succ i ih =>
      obtain ⟨b, hb⟩ : ∃ b, p.toList[i]? = some b :=
        ⟨_, List.getElem?_eq_getElem (by rw [p.length_toList]; omega)⟩
      rcases exists_tally d b with ⟨e, ht⟩ | ⟨rfl, rfl⟩
      · rw [scanBackwardFrom_of_tally hb ht, ih (by omega)]
        constructor
        · intro h
          rw [Program.slice_succ (by omega) hb, nesting_concat, h.2.2]
          exact ⟨by omega, h.2.1, ht⟩
        · intro h
          have hij : j ≠ i := by
            intro he
            subst he
            have hd : d = 0 := by simpa [eq_comm] using h.2.2
            have ho : b = Instruction.opening.toByte := by
              simpa [hb] using Program.instruction?_eq_some_iff.mp h.2.1
            simp [hd, ho] at ht
          rw [Program.slice_succ (by omega) hb, nesting_concat, Option.bind_eq_some_iff] at h
          obtain ⟨hlt, ho, e', he', ht'⟩ := h
          exact ⟨by omega, ho, tally_injective ht ht' ▸ he'⟩
      · have hi : p.instruction? i = some .opening := Program.instruction?_eq_some_iff.mpr hb
        rw [scanBackwardFrom_opening_zero hi]
        constructor
        · intro h
          obtain rfl : i = j := by simpa using h
          exact ⟨Nat.lt_succ_self _, hi, by simp⟩
        · intro h
          by_cases hij : j = i
          · rw [hij]
          · rw [Program.slice_succ (by omega) hb, nesting_concat, Option.bind_eq_some_iff] at h
            simp at h

/-- A forward scan that finds nothing has closed no loop too many. -/
theorem exists_nesting_of_scanForwardFrom (hi : i ≤ p.size)
    (h : scanForwardFrom p d i = none) : ∃ e, nesting d (p.slice i p.size) = some e := by
  induction hk : p.size - i generalizing d i with
  | zero =>
      obtain rfl : i = p.size := by omega
      exact ⟨d, by simp⟩
  | succ k ih =>
      obtain ⟨b, hb⟩ : ∃ b, p.toList[i]? = some b :=
        ⟨_, List.getElem?_eq_getElem (by rw [p.length_toList]; omega)⟩
      cases ht : tally d b with
      | some e =>
          rw [scanForwardFrom_of_tally hb ht] at h
          obtain ⟨e', he'⟩ := ih (by omega) h (by omega)
          refine ⟨e', ?_⟩
          rw [Program.slice_eq_cons (by omega) hb, nesting_cons, ht]
          exact he'
      | none =>
          obtain ⟨rfl, rfl⟩ := tally_eq_none_iff.mp ht
          rw [scanForwardFrom_closing_zero (Program.instruction?_eq_some_iff.mpr hb)] at h
          cases h

/-- A backward scan finds every loop that a segment leaves open where the scan starts. -/
theorem exists_scanBackwardFrom {a s : Nat} (hs : s ≤ i) (hi : i ≤ p.size)
    (h : nesting 0 (p.slice s i) = some a) (hd : d < a) :
    ∃ j, scanBackwardFrom p d i = some j := by
  induction hs generalizing d a with
  | refl =>
      have ha : a = 0 := by simpa [eq_comm] using h
      omega
  | @step i hs ih =>
      obtain ⟨b, hb⟩ : ∃ b, p.toList[i]? = some b :=
        ⟨_, List.getElem?_eq_getElem (by rw [p.length_toList]; omega)⟩
      rw [Program.slice_succ hs hb, nesting_concat, Option.bind_eq_some_iff] at h
      obtain ⟨a', ha', ht'⟩ := h
      rcases exists_tally d b with ⟨e, ht⟩ | ⟨rfl, rfl⟩
      · rw [scanBackwardFrom_of_tally hb ht]
        exact ih (by omega) ha' (tally_lt ht ht' hd)
      · exact ⟨i, scanBackwardFrom_opening_zero (Program.instruction?_eq_some_iff.mpr hb)⟩

end

/-- The brackets at two positions belong together: what stands between is balanced. -/
structure Partners (p : Program) (i j : Nat) : Prop where
  lt : i < j
  opening : p.instruction? i = some .opening
  closing : p.instruction? j = some .closing
  balanced : Balanced (p.slice (i + 1) j)

section
variable {p : Program} {i j : Nat}

theorem scanForward_eq_some_iff (hi : p.instruction? i = some .opening) :
    scanForward p i = some j ↔ Partners p i j := by
  rw [scanForward_natCast, scanForwardFrom_eq_some_iff, ← balanced_iff_nesting]
  exact ⟨fun h => ⟨h.1, hi, h.2.1, h.2.2⟩, fun h => ⟨h.lt, h.closing, h.balanced⟩⟩

theorem scanBackward_eq_some_iff (hj : p.instruction? j = some .closing) :
    scanBackward p j = some i ↔ Partners p i j := by
  have hsize := Nat.le_of_lt (Program.lt_size_of_instruction?_eq_some hj)
  rw [scanBackward_natCast hsize, scanBackwardFrom_eq_some_iff hsize, ← balanced_iff_nesting]
  exact ⟨fun h => ⟨h.1, h.2.1, hj, h.2.2⟩, fun h => ⟨h.lt, h.opening, h.balanced⟩⟩

/-- A segment is read up to a position in it and on from there. -/
theorem nesting_split {c e s m : Nat} (hsi : s ≤ i) (him : i ≤ m)
    (h : nesting c (p.slice s m) = some e) :
    ∃ a, nesting c (p.slice s i) = some a ∧ nesting a (p.slice i m) = some e := by
  rwa [← p.slice_append hsi him, nesting_append, Option.bind_eq_some_iff] at h

/-- A segment is read up to an octet in it, over the octet and on from there. -/
theorem nesting_around {b : UInt8} {c e s m : Nat} (hsi : s ≤ i) (him : i < m)
    (hb : p.toList[i]? = some b) (h : nesting c (p.slice s m) = some e) :
    ∃ a a', nesting c (p.slice s i) = some a ∧ tally a b = some a' ∧
      nesting a' (p.slice (i + 1) m) = some e := by
  obtain ⟨a, ha, h⟩ := nesting_split hsi (Nat.le_of_lt him) h
  rw [Program.slice_eq_cons him hb, nesting_cons, Option.bind_eq_some_iff] at h
  obtain ⟨a', ht, h⟩ := h
  exact ⟨a, a', ha, ht, h⟩

/-- A closing bracket behind octets that leave no loop open has no partner. -/
theorem scanBackward_eq_none_of_nesting {e : Nat} (hj : p.instruction? j = some .closing)
    (h : nesting e (p.slice 0 j) = some 0) : scanBackward p j = none := by
  cases hs : scanBackward p j with
  | none => rfl
  | some i =>
      have hpair := (scanBackward_eq_some_iff hj).mp hs
      obtain ⟨a, a', _, ht, hrest⟩ := nesting_around (Nat.zero_le i) hpair.lt
        (Program.instruction?_eq_some_iff.mp hpair.opening) h
      obtain rfl : a + 1 = a' := by simpa using ht
      -- The loop that the partner opens would still be open.
      have hopen := nesting_add (balanced_iff_nesting.mp hpair.balanced) (a + 1)
      rw [Nat.zero_add, hrest] at hopen
      simp at hopen

/-- An opening bracket in front of octets that close no loop too many has no partner. -/
theorem scanForward_eq_none_of_nesting {e : Nat} (hi : p.instruction? i = some .opening)
    (h : nesting 0 (p.slice (i + 1) p.size) = some e) : scanForward p i = none := by
  cases hs : scanForward p i with
  | none => rfl
  | some j =>
      have hpair := (scanForward_eq_some_iff hi).mp hs
      obtain ⟨a, a', ha, ht, _⟩ := nesting_around hpair.lt
        (Program.lt_size_of_instruction?_eq_some hpair.closing)
        (Program.instruction?_eq_some_iff.mp hpair.closing) h
      obtain rfl : 0 = a :=
        Option.some.inj ((balanced_iff_nesting.mp hpair.balanced).symm.trans ha)
      simp at ht

/-- An opening bracket in a segment that leaves no loop open has a partner. -/
theorem exists_closing_of_nesting {c s m : Nat} (hsi : s ≤ i) (him : i < m) (hm : m ≤ p.size)
    (hi : p.instruction? i = some .opening) (h : nesting c (p.slice s m) = some 0) :
    ∃ j, Partners p i j := by
  obtain ⟨a, a', _, ht, hrest⟩ :=
    nesting_around hsi him (Program.instruction?_eq_some_iff.mp hi) h
  obtain rfl : a + 1 = a' := by simpa using ht
  cases hscan : scanForward p i with
  | some j => exact ⟨j, (scanForward_eq_some_iff hi).mp hscan⟩
  | none =>
      rw [scanForward_natCast] at hscan
      obtain ⟨e, he⟩ := exists_nesting_of_scanForwardFrom (by omega) hscan
      obtain ⟨e', he', _⟩ := nesting_split him hm he
      -- The loop that the bracket opens would be open at the end of the segment.
      have hopen := nesting_add he' (a + 1)
      rw [Nat.zero_add, hrest] at hopen
      simp at hopen

/-- A closing bracket in a segment that closes no loop too many has a partner. -/
theorem exists_opening_of_nesting {e s m : Nat} (hsj : s ≤ j) (hjm : j < m)
    (hj : p.instruction? j = some .closing) (h : nesting 0 (p.slice s m) = some e) :
    ∃ i, Partners p i j := by
  have hsize := Nat.le_of_lt (Program.lt_size_of_instruction?_eq_some hj)
  obtain ⟨a, a', ha, ht, _⟩ :=
    nesting_around hsj hjm (Program.instruction?_eq_some_iff.mp hj) h
  have hpos : 0 < a := by
    cases a with
    | zero => simp at ht
    | succ a => exact Nat.succ_pos a
  obtain ⟨i, hi⟩ := exists_scanBackwardFrom hsj hsize ha hpos
  rw [← scanBackward_natCast hsize] at hi
  exact ⟨i, (scanBackward_eq_some_iff hj).mp hi⟩

theorem exists_closing_of_balanced (hp : Balanced p.toList)
    (hi : p.instruction? i = some .opening) : ∃ j, Partners p i j := by
  rw [balanced_iff_nesting, ← p.slice_zero_size] at hp
  exact exists_closing_of_nesting (Nat.zero_le i) (Program.lt_size_of_instruction?_eq_some hi)
    (Nat.le_refl p.size) hi hp

theorem exists_opening_of_balanced (hp : Balanced p.toList)
    (hj : p.instruction? j = some .closing) : ∃ i, Partners p i j := by
  rw [balanced_iff_nesting, ← p.slice_zero_size] at hp
  exact exists_opening_of_nesting (Nat.zero_le j) (Program.lt_size_of_instruction?_eq_some hj) hj hp

end

/-- A map of positions that carries the brackets of a program to the brackets of another one,
in order and without a gap between. Other octets are carried along or dropped. -/
structure Projection (r : Nat → Nat) (p q : Program) : Prop where
  zero : r 0 = 0
  bracket : ∀ {pc i}, p.instruction? pc = some i → i = .opening ∨ i = .closing →
    q.instruction? (r pc) = some i ∧ r (pc + 1) = r pc + 1
  other : ∀ {pc}, pc < p.size → p.instruction? pc ≠ some .opening →
    p.instruction? pc ≠ some .closing → r (pc + 1) = r pc ∨
      r (pc + 1) = r pc + 1 ∧ q.instruction? (r pc) ≠ some .opening ∧
        q.instruction? (r pc) ≠ some .closing
  ends : ∀ {pc}, p.size ≤ pc → q.size ≤ r pc

namespace Projection

variable {p q : Program} {r : Nat → Nat} {pc : Nat}

/-- A forward scan sees brackets only, so it finds what corresponds. -/
theorem scanForwardFrom_eq (h : Projection r p q) (d pc : Nat) :
    scanForwardFrom q d (r pc) = (scanForwardFrom p d pc).map r := by
  induction hk : p.size - pc generalizing d pc with
  | zero =>
      have hp : scanForwardFrom p d pc = none := scanForwardFrom_end d (by omega)
      rw [hp, scanForwardFrom_end d (h.ends (by omega))]
      rfl
  | succ k ih =>
      have hnext := fun d => ih d (pc + 1) (by omega)
      by_cases ho : p.instruction? pc = some .opening
      · obtain ⟨hq, hr⟩ := h.bracket ho (.inl rfl)
        rw [scanForwardFrom_opening d ho, scanForwardFrom_opening d hq, ← hr, hnext]
      · by_cases hc : p.instruction? pc = some .closing
        · obtain ⟨hq, hr⟩ := h.bracket hc (.inr rfl)
          cases d with
          | zero =>
              rw [scanForwardFrom_closing_zero hc, scanForwardFrom_closing_zero hq]
              rfl
          | succ d =>
              rw [scanForwardFrom_closing_succ d hc, scanForwardFrom_closing_succ d hq, ← hr, hnext]
        · rw [scanForwardFrom_other d ho hc, ← hnext]
          rcases h.other (by omega) ho hc with hr | ⟨hr, ho', hc'⟩
          · rw [hr]
          · rw [hr]
            exact scanForwardFrom_other d ho' hc'

/-- A backward scan sees brackets only, so it finds what corresponds. -/
theorem scanBackwardFrom_eq (h : Projection r p q) (d : Nat) (hpc : pc ≤ p.size) :
    scanBackwardFrom q d (r pc) = (scanBackwardFrom p d pc).map r := by
  induction pc generalizing d with
  | zero => simp [h.zero]
  | succ pc ih =>
      have hbefore := fun d => ih d (Nat.le_of_succ_le hpc)
      by_cases hc : p.instruction? pc = some .closing
      · obtain ⟨hq, hr⟩ := h.bracket hc (.inr rfl)
        rw [scanBackwardFrom_closing d hc, hr, scanBackwardFrom_closing d hq, hbefore]
      · by_cases ho : p.instruction? pc = some .opening
        · obtain ⟨hq, hr⟩ := h.bracket ho (.inl rfl)
          cases d with
          | zero =>
              rw [scanBackwardFrom_opening_zero ho, hr, scanBackwardFrom_opening_zero hq]
              rfl
          | succ d =>
              rw [scanBackwardFrom_opening_succ d ho, hr, scanBackwardFrom_opening_succ d hq,
                hbefore]
        · rw [scanBackwardFrom_other d ho hc, ← hbefore]
          rcases h.other hpc ho hc with hr | ⟨hr, ho', hc'⟩
          · rw [hr]
          · rw [hr]
            exact scanBackwardFrom_other d ho' hc'

theorem scanForward_eq (h : Projection r p q) (hpc : p.instruction? pc = some .opening) :
    scanForward q (r pc) = (scanForward p pc).map r := by
  rw [scanForward_natCast, scanForward_natCast, ← (h.bracket hpc (.inl rfl)).2,
    h.scanForwardFrom_eq]

theorem scanBackward_eq (h : Projection r p q) (hpc : p.instruction? pc = some .closing) :
    scanBackward q (r pc) = (scanBackward p pc).map r := by
  have hp := Nat.le_of_lt (Program.lt_size_of_instruction?_eq_some hpc)
  have hq := Program.lt_size_of_instruction?_eq_some (h.bracket hpc (.inr rfl)).1
  rw [scanBackward_natCast hp, scanBackward_natCast (Nat.le_of_lt hq), h.scanBackwardFrom_eq 0 hp]

end Projection

end Bracket

end Brainfuck
