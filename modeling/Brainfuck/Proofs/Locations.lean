import Brainfuck.Proofs.Lines
import Mathlib.Algebra.Ring.Nat

/-!
# Locations by counting newlines

The line of a position is one more than the number of newlines before it, and its column is
its distance from the last of them. The index holds exactly the offsets behind the newlines, in
increasing order, and the halving search cuts that list in two: the newlines before the
position and the others. Positions before the program have no newline before them, and those
past its end have all of them.

Two limits of the numbers show in this. The search halves by shifting a 32-bit word, which is
exact as long as there are fewer than `2 ^ 30` newlines. Columns are binary64 numbers, so they
are exact within `2 ^ 53` of the last newline and rounded twice beyond; where they are exact,
locations are ordered as the positions are.
-/
namespace Brainfuck

namespace Program

/-- The offsets of the newlines, in increasing order. -/
def newlines (p : Program) : List Nat :=
  (List.range p.size).filter fun i => p.toList[i]? = some newline

/-- The offsets of the newlines before a position. -/
def newlinesBefore (p : Program) (position : Int) : List Nat :=
  p.newlines.filter fun i : Nat => (i : Int) < position

/-- The distance of a position from the last newline before it. The first line is behind the
offset `-1`. -/
def columnAt (p : Program) (position : Int) : Int :=
  match (p.newlinesBefore position).getLast? with
  | some i => position - i
  | none => position + 1

/-- The column and the number before it are integers that binary64 does not round. -/
def HasExactColumn (p : Program) (position : Int) : Prop :=
  -(Binary64.maxSafeInteger + 1 : Int) < p.columnAt position ∧
    p.columnAt position ≤ Binary64.maxSafeInteger + 1

theorem pairwise_newlines (p : Program) : p.newlines.Pairwise (· < ·) :=
  List.pairwise_lt_range.filter _

end Program

/-- The order of locations: by lines, and by columns within a line. -/
def Location.Before (a b : Location) : Prop :=
  a.line < b.line ∨ a.line = b.line ∧ a.column < b.column

namespace LineIndex

section
variable {index : LineIndex} {position : Int} {low high : Nat}

/-- Half of an integer, by a shift of its low 32 bits. -/
def halfWord (n : Int) : Int := ((BitVec.ofInt 32 n).sshiftRight 1).toInt

theorem halfWord_natCast {n : Nat} (h : n < 2 ^ 31) : halfWord n = (n / 2 : Nat) := by
  have hword : (BitVec.ofInt 32 (n : Int)).toInt = n :=
    BitVec.toInt_ofInt_eq_self (by decide) (by omega) (by omega)
  rw [halfWord, BitVec.toInt_sshiftRight, hword, Int.shiftRight_eq_div_pow]
  rfl

/-- Whether a line starts at or before a position. Outside the index there is no line. -/
def startsBy (index : LineIndex) (position line : Int) : Bool :=
  0 ≤ line && index.starts[line.toNat]?.any fun start => (start : Int) ≤ position

theorem startsBy_natCast {line : Nat} (h : line < index.starts.size) :
    index.startsBy position line = decide ((index.start line : Int) ≤ position) := by
  simp [startsBy, start, Array.getElem?_eq_getElem h]

/-- The search with its middle taken by a shift, within a number of rounds. -/
def shiftSearch (index : LineIndex) (position : Int) : Nat → Int → Int → Option Int
  | 0, _, _ => none
  | rounds + 1, low, high =>
    if low < high then
      let middle := halfWord (low + high + 1)
      if index.startsBy position middle then shiftSearch index position rounds middle high
      else shiftSearch index position rounds low (middle - 1)
    else some low

/-- In an index of at most `2 ^ 30` lines the shift cuts no middle. -/
theorem shiftSearch_succ (hsize : index.starts.size ≤ 2 ^ 30) (hlt : low < high)
    (hhigh : high < index.starts.size) (rounds : Nat) :
    index.shiftSearch position (rounds + 1) low high =
      if (index.start ((low + high + 1) / 2) : Int) ≤ position then
        index.shiftSearch position rounds ((low + high + 1) / 2 : Nat) high
      else index.shiftSearch position rounds low ((low + high + 1) / 2 - 1 : Nat) := by
  have hmiddle : halfWord ((low : Int) + high + 1) = ((low + high + 1) / 2 : Nat) :=
    halfWord_natCast (n := low + high + 1) (by omega)
  have hlast : (((low + high + 1) / 2 : Nat) : Int) - 1 = ((low + high + 1) / 2 - 1 : Nat) := by
    omega
  rw [shiftSearch, if_pos (by omega)]
  dsimp only
  rw [hmiddle, startsBy_natCast (by omega), hlast]
  simp only [decide_eq_true_eq]

/-- Every round brings the ends closer to one another, so the search with shifts ends and finds
the same line. -/
theorem shiftSearch_eq_search (hsize : index.starts.size ≤ 2 ^ 30) (hle : low ≤ high)
    (hhigh : high < index.starts.size) {rounds : Nat} (hrounds : high - low < rounds) :
    index.shiftSearch position rounds low high = some (index.search position low high : Int) := by
  fun_induction search index position low high generalizing rounds with
  | case1 low high hlt middle hstart ih =>
      obtain ⟨rounds, rfl⟩ : ∃ n, rounds = n + 1 := ⟨rounds - 1, by omega⟩
      rw [shiftSearch_succ hsize hlt hhigh, if_pos hstart]
      exact ih (by omega) hhigh (by omega)
  | case2 low high hlt middle hstart ih =>
      obtain ⟨rounds, rfl⟩ : ∃ n, rounds = n + 1 := ⟨rounds - 1, by omega⟩
      rw [shiftSearch_succ hsize hlt hhigh, if_neg hstart]
      exact ih (by omega) (by omega) (by omega)
  | case3 low high hlt =>
      obtain ⟨rounds, rfl⟩ : ∃ n, rounds = n + 1 := ⟨rounds - 1, by omega⟩
      rw [shiftSearch, if_neg (by omega)]

end

section
variable (p : Program)

theorem toList_startsWithin (n : Nat) :
    (startsWithin p n).toList =
      0 :: ((List.range n).filter fun i => p.toList[i]? = some newline).map (· + 1) := by
  induction n with
  | zero => rfl
  | succ n ih =>
      rw [startsWithin_succ, List.range_succ, List.filter_append, List.map_append]
      by_cases hbyte : p.toList[n]? = some newline
      · rw [if_pos hbyte, Array.toList_push, ih, List.filter_cons_of_pos (by simpa using hbyte)]
        rfl
      · rw [if_neg hbyte, ih, List.filter_cons_of_neg (by simpa using hbyte)]
        simp

/-- The index holds zero and the offsets behind the newlines. -/
theorem toList_starts : (ofProgram p).starts.toList = 0 :: p.newlines.map (· + 1) :=
  toList_startsWithin p p.size

theorem size_starts_eq : (ofProgram p).starts.size = p.newlines.length + 1 := by
  have hlength := congrArg List.length (toList_starts p)
  simpa using hlength

theorem start_succ {k : Nat} (h : k < p.newlines.length) :
    (ofProgram p).start (k + 1) = p.newlines[k] + 1 := by
  rw [start, ← Array.getElem?_toList, toList_starts, List.getElem?_cons_succ, List.getElem?_map,
    List.getElem?_eq_getElem h]
  rfl

theorem lineOf_le_length (position : Int) :
    (ofProgram p).lineOf position ≤ p.newlines.length := by
  have hlt := lineOf_lt_size p position
  rw [size_starts_eq] at hlt
  omega

/-- The newlines up to the line that is found are before the position. -/
theorem newline_lt_of_lt_lineOf {position : Int} {i : Nat} (hi : i < p.newlines.length)
    (h : i < (ofProgram p).lineOf position) : (p.newlines[i] : Int) < position := by
  have hle := lineOf_le_length p position
  have hstart : ((ofProgram p).start ((ofProgram p).lineOf position) : Int) ≤ position := by
    have hfound : (ofProgram p).lineOf position = 0 ∨
      ((ofProgram p).start ((ofProgram p).lineOf position) : Int) ≤ position :=
        search_eq_or_start_le
    exact hfound.resolve_left (by omega)
  generalize (ofProgram p).lineOf position = line at *
  obtain ⟨k, rfl⟩ : ∃ k, line = k + 1 := ⟨line - 1, by omega⟩
  rw [start_succ p (by omega)] at hstart
  have horder : p.newlines[i] ≤ p.newlines[k] := by
    rcases Nat.lt_or_eq_of_le (Nat.le_of_lt_succ h) with hlt | rfl
    · exact Nat.le_of_lt (List.pairwise_iff_getElem.mp p.pairwise_newlines i k _ _ hlt)
    · exact Nat.le_refl _
  omega

/-- The newlines from the line that is found on are not before the position. -/
theorem le_newline_of_lineOf_le {position : Int} {i : Nat} (hi : i < p.newlines.length)
    (h : (ofProgram p).lineOf position ≤ i) : position ≤ p.newlines[i] := by
  have hlast : (ofProgram p).lineOf position < (ofProgram p).starts.size - 1 := by
    rw [size_starts_eq]
    omega
  have hnext : position < (ofProgram p).start ((ofProgram p).lineOf position + 1) :=
    lt_start_search (Nat.zero_le _) hlast
  generalize (ofProgram p).lineOf position = line at *
  rw [start_succ p (by omega)] at hnext
  have horder : p.newlines[line] ≤ p.newlines[i] := by
    rcases Nat.lt_or_eq_of_le h with hlt | rfl
    · exact Nat.le_of_lt (List.pairwise_iff_getElem.mp p.pairwise_newlines line i _ _ hlt)
    · exact Nat.le_refl _
  omega

/-- The search cuts the newlines into those before the position and the others. -/
theorem newlinesBefore_eq_take (position : Int) :
    p.newlinesBefore position = p.newlines.take ((ofProgram p).lineOf position) := by
  have hfront : (p.newlines.take ((ofProgram p).lineOf position)).filter
      (fun i : Nat => (i : Int) < position) =
        p.newlines.take ((ofProgram p).lineOf position) := by
    rw [List.filter_eq_self]
    intro a ha
    obtain ⟨i, hi, rfl⟩ := List.mem_take_iff_getElem.mp ha
    exact decide_eq_true (newline_lt_of_lt_lineOf p (by omega) (by omega))
  have hrest : (p.newlines.drop ((ofProgram p).lineOf position)).filter
      (fun i : Nat => (i : Int) < position) = [] := by
    rw [List.filter_eq_nil_iff]
    intro a ha
    obtain ⟨i, hi, rfl⟩ := List.mem_drop_iff_getElem.mp ha
    have hline : (ofProgram p).lineOf position ≤ (ofProgram p).lineOf position + i :=
      Nat.le_add_right _ i
    have hle := le_newline_of_lineOf_le p (by omega) hline
    simpa using hle
  rw [Program.newlinesBefore, ← List.take_append_drop ((ofProgram p).lineOf position) p.newlines,
    List.filter_append, hfront, hrest, List.append_nil, List.take_append_drop]

theorem length_newlinesBefore (position : Int) :
    (p.newlinesBefore position).length = (ofProgram p).lineOf position := by
  rw [newlinesBefore_eq_take, List.length_take_of_le (lineOf_le_length p position)]

/-- The line that is found starts one before the first column. -/
theorem sub_start_lineOf (position : Int) :
    position - (ofProgram p).start ((ofProgram p).lineOf position) = p.columnAt position - 1 := by
  have hle := lineOf_le_length p position
  rw [Program.columnAt, newlinesBefore_eq_take]
  generalize (ofProgram p).lineOf position = line at *
  cases line with
  | zero =>
      rw [start_zero]
      simp
  | succ k =>
      have hlast : (p.newlines.take (k + 1)).getLast? = some p.newlines[k] := by
        simp [List.getLast?_take, List.getElem?_eq_getElem hle]
      rw [start_succ p hle, hlast]
      dsimp only
      omega

end

end LineIndex

namespace Program

variable {p : Program} {a b position : Int}

theorem locate_eq (p : Program) (position : Int) : p.locate position =
    ⟨(p.newlinesBefore position).length + 1,
      Binary64.roundInt (Binary64.roundInt (p.columnAt position - 1) + 1)⟩ := by
  rw [LineIndex.length_newlinesBefore, ← LineIndex.sub_start_lineOf]
  rfl

theorem locate_of_exact (h : p.HasExactColumn position) :
    p.locate position = ⟨(p.newlinesBefore position).length + 1, p.columnAt position⟩ := by
  obtain ⟨hlower, hupper⟩ := h
  rw [locate_eq, Binary64.roundInt_of_natAbs_le (z := p.columnAt position - 1) (by omega),
    Int.sub_add_cancel, Binary64.roundInt_of_natAbs_le (by omega)]

/-- A column reaches back at most to the start of the program. -/
theorem hasExactColumn_of_safe (h : position.natAbs ≤ Binary64.maxSafeInteger) :
    p.HasExactColumn position := by
  unfold HasExactColumn columnAt
  cases hlast : (p.newlinesBefore position).getLast? with
  | none =>
      dsimp only
      omega
  | some i =>
      have hmem := List.mem_of_getLast? hlast
      have hbefore : (i : Int) < position := by simpa using (List.mem_filter.mp hmem).2
      dsimp only
      omega

theorem length_newlinesBefore_mono (h : a ≤ b) :
    (p.newlinesBefore a).length ≤ (p.newlinesBefore b).length := by
  unfold newlinesBefore
  rw [← List.countP_eq_length_filter, ← List.countP_eq_length_filter]
  apply List.countP_mono_left
  intro i _ hi
  have hlt : (i : Int) < a := by simpa using hi
  simpa using Int.lt_of_lt_of_le hlt h

/-- On one line columns are as far apart as the positions. -/
theorem columnAt_sub_columnAt
    (h : (p.newlinesBefore a).length = (p.newlinesBefore b).length) :
    p.columnAt b - p.columnAt a = b - a := by
  have hlines : p.newlinesBefore a = p.newlinesBefore b := by
    rw [LineIndex.length_newlinesBefore, LineIndex.length_newlinesBefore] at h
    rw [LineIndex.newlinesBefore_eq_take, LineIndex.newlinesBefore_eq_take, h]
  unfold columnAt
  rw [hlines]
  cases (p.newlinesBefore b).getLast? <;> dsimp only <;> omega

theorem locate_before_of_lt (ha : p.HasExactColumn a) (hb : p.HasExactColumn b) (h : a < b) :
    (p.locate a).Before (p.locate b) := by
  have hmono := length_newlinesBefore_mono (p := p) (Int.le_of_lt h)
  rw [locate_of_exact ha, locate_of_exact hb]
  unfold Location.Before
  dsimp only
  rcases Nat.lt_or_eq_of_le hmono with hlt | heq
  · exact .inl (by omega)
  · have hcolumn := columnAt_sub_columnAt heq
    exact .inr ⟨by omega, by omega⟩

theorem locate_before_iff (ha : p.HasExactColumn a) (hb : p.HasExactColumn b) :
    (p.locate a).Before (p.locate b) ↔ a < b := by
  refine ⟨fun h => ?_, locate_before_of_lt ha hb⟩
  rcases Int.lt_trichotomy a b with hlt | rfl | hgt
  · exact hlt
  · unfold Location.Before at h
    omega
  · have hafter := locate_before_of_lt hb ha hgt
    unfold Location.Before at h hafter
    omega

theorem eq_of_locate_eq (ha : p.HasExactColumn a) (hb : p.HasExactColumn b)
    (h : p.locate a = p.locate b) : a = b := by
  have hab := locate_before_iff ha hb
  have hba := locate_before_iff hb ha
  rw [h] at hab hba
  unfold Location.Before at hab hba
  omega

end Program

/-- Locating a position is counting newlines. The line is one more than the number of newlines
before the position, wherever it is, and the search finds it with its middle taken by a shift
of a 32-bit word. The column is the distance from the last of these newlines, rounded to
binary64 once before the last addition and once behind it. Where that distance is at most
`2 ^ 53` and above `-2 ^ 53` nothing is rounded, so for every position up to `maxSafeInteger`
on either side. There a location determines its position, and locations are in the order of
their positions. -/
theorem locate_counts_newlines (p : Program) (hlines : p.newlines.length < 2 ^ 30) :
    (∀ position,
      (p.locate position).line = (p.newlinesBefore position).length + 1 ∧
      (LineIndex.ofProgram p).shiftSearch position (p.newlines.length + 1) 0 p.newlines.length =
        some ((p.newlinesBefore position).length : Int) ∧
      (p.locate position).column =
        Binary64.roundInt (Binary64.roundInt (p.columnAt position - 1) + 1)) ∧
    (∀ position, p.HasExactColumn position →
      (p.locate position).column = p.columnAt position) ∧
    (∀ position, position.natAbs ≤ Binary64.maxSafeInteger → p.HasExactColumn position) ∧
    ∀ a b, p.HasExactColumn a → p.HasExactColumn b →
      (p.locate a = p.locate b → a = b) ∧ ((p.locate a).Before (p.locate b) ↔ a < b) := by
  have hsize := LineIndex.size_starts_eq p
  refine ⟨?_, ?_, ?_, ?_⟩
  · intro position
    rw [Program.locate_eq]
    refine ⟨rfl, ?_, rfl⟩
    have hsearch : (LineIndex.ofProgram p).shiftSearch position (p.newlines.length + 1)
        (0 : Nat) p.newlines.length =
          some ((LineIndex.ofProgram p).search position 0 p.newlines.length : Int) :=
      LineIndex.shiftSearch_eq_search (by omega) (Nat.zero_le _) (by omega) (by omega)
    rw [LineIndex.length_newlinesBefore, LineIndex.lineOf, hsize, Nat.add_sub_cancel]
    exact hsearch
  · intro position hexact
    rw [Program.locate_of_exact hexact]
  · intro position hsafe
    exact Program.hasExactColumn_of_safe hsafe
  · intro a b ha hb
    exact ⟨Program.eq_of_locate_eq ha hb, Program.locate_before_iff ha hb⟩

/-- On a newline, right behind it, before the program and far past its end. -/
theorem locate_around_newline :
    let p := Program.ofText "ab\nc"
    p.newlines.length < 2 ^ 30 ∧
      p.locate (-5) = ⟨1, -4⟩ ∧ p.locate 2 = ⟨1, 3⟩ ∧ p.locate 3 = ⟨2, 1⟩ ∧
      p.locate 9007199254740991 = ⟨2, 9007199254740989⟩ ∧
      (p.locate 2).Before (p.locate 3) := by
  intro p
  have hlines : p.newlines.length < 2 ^ 30 := by decide +kernel
  obtain ⟨hline, hcolumn, hsafe, horder⟩ := locate_counts_newlines p hlines
  have hlocate : ∀ position, position.natAbs ≤ Binary64.maxSafeInteger →
      p.locate position = ⟨(p.newlinesBefore position).length + 1, p.columnAt position⟩ := by
    intro position h
    rw [← (hline position).1, ← hcolumn position (hsafe position h)]
  refine ⟨hlines, hlocate (-5) (by decide), hlocate 2 (by decide), hlocate 3 (by decide),
    hlocate 9007199254740991 (by decide), ?_⟩
  exact (horder 2 3 (hsafe 2 (by decide)) (hsafe 3 (by decide))).2.mpr (by decide)

/-- Far behind a newline two positions have one location, and its column is not the distance
of either from the newline. -/
theorem locate_rounds_far_columns :
    let p := Program.ofText "ab\n"
    p.newlines.length < 2 ^ 30 ∧
      p.newlinesBefore 18014398509481984 = [2] ∧
      p.locate 18014398509481984 = ⟨2, 18014398509481980⟩ ∧
      p.columnAt 18014398509481984 = 18014398509481984 - 2 ∧
      p.locate 18014398509481982 = p.locate 18014398509481984 := by
  decide +kernel

end Brainfuck
