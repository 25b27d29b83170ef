import Brainfuck.Location

/-!
# The lines of a program

The index of a program lists the offsets at which its lines start: zero, and every offset
behind a newline. The entry with number `k` has `k` newlines before it, so the index counts
lines as splitting at newlines does. A halving search finds the last line that starts at or
before a position, and needs no order among the starts for that.

A position in the program therefore cuts it into three parts: what comes before the line of
the position, the line itself without its newline, and what comes behind it.
-/
namespace Brainfuck

/-- A line can start behind these octets. -/
def OpensLine (front : List UInt8) : Prop :=
  front = [] ∨ ∃ earlier, front = earlier ++ [newline]

namespace LineIndex

section
variable {index : LineIndex} {position : Int} {low high : Nat}

theorem search_mem (h : low ≤ high) :
    low ≤ index.search position low high ∧ index.search position low high ≤ high := by
  fun_induction search index position low high with
  | case1 low high hlt middle hle ih =>
      have hmiddle := ih (by omega)
      omega
  | case2 low high hlt middle hle ih =>
      have hmiddle := ih (by omega)
      omega
  | case3 low high hlt => omega

/-- A line that is found starts at or before the position, unless it is the first candidate. -/
theorem search_eq_or_start_le :
    index.search position low high = low ∨
      (index.start (index.search position low high) : Int) ≤ position := by
  fun_induction search index position low high with
  | case1 low high _ middle hle ih =>
      rcases ih with heq | hstart
      · exact .inr (heq.symm ▸ hle)
      · exact .inr hstart
  | case2 low high _ middle _ ih => exact ih
  | case3 low high _ => exact .inl rfl

/-- A line that is found starts at or before the position, if the first candidate does. -/
theorem start_search_le (h : (index.start low : Int) ≤ position) :
    (index.start (index.search position low high) : Int) ≤ position := by
  rcases search_eq_or_start_le with heq | hstart
  · rwa [heq]
  · exact hstart

/-- The line behind the one that is found starts behind the position. -/
theorem lt_start_search (h : low ≤ high) (hlast : index.search position low high < high) :
    position < index.start (index.search position low high + 1) := by
  fun_induction search index position low high with
  | case1 low high hlt middle hle ih => exact ih (by omega) hlast
  | case2 low high hlt middle hle ih =>
      have hmem : low ≤ index.search position low (middle - 1) ∧
          index.search position low (middle - 1) ≤ middle - 1 := search_mem (by omega)
      by_cases hbefore : index.search position low (middle - 1) < middle - 1
      · exact ih (by omega) hbefore
      · have hnext : index.search position low (middle - 1) + 1 = middle := by omega
        rw [hnext]
        omega
  | case3 low high hlt => omega

end

section
variable {p : Program}

/-- The starts that a number of octets have given. -/
def startsWithin (p : Program) (n : Nat) : Array Nat :=
  n.fold (fun i _ starts =>
    if p.bytes[i]? = some newline then starts.push (i + 1) else starts) #[0]

theorem startsWithin_succ (p : Program) (n : Nat) :
    startsWithin p (n + 1) =
      if p.toList[n]? = some newline then (startsWithin p n).push (n + 1)
      else startsWithin p n := by
  rw [startsWithin, Nat.fold_succ, Program.toList, Array.getElem?_toList]
  rfl

theorem size_startsWithin (p : Program) (n : Nat) :
    (startsWithin p n).size = (p.toList.take n).count newline + 1 := by
  induction n with
  | zero => rfl
  | succ n ih =>
      rw [startsWithin_succ, List.take_add_one, List.count_append]
      split
      · rename_i hbyte
        rw [hbyte, Array.size_push, ih]
        rfl
      · rename_i hbyte
        rw [ih]
        cases hoctet : p.toList[n]? with
        | none => rfl
        | some b =>
            rw [hoctet, Option.some.injEq] at hbyte
            simp [hbyte]

/-- Lines are numbered by the newlines before them. -/
theorem exists_front_of_startsWithin {n k start : Nat}
    (h : (startsWithin p n)[k]? = some start) :
    ∃ front, front <+: p.toList ∧ OpensLine front ∧ front.length = start ∧
      front.count newline = k := by
  induction n generalizing k start with
  | zero =>
      have hk : k < 1 := (Array.getElem?_eq_some_iff.mp h).1
      obtain rfl : k = 0 := by omega
      obtain rfl : 0 = start := Option.some.inj h
      exact ⟨[], List.nil_prefix, .inl rfl, rfl, rfl⟩
  | succ n ih =>
      rw [startsWithin_succ] at h
      by_cases hbyte : p.toList[n]? = some newline
      · rw [if_pos hbyte, Array.getElem?_push] at h
        split at h
        · -- The new start is behind the newline that the step has met.
          obtain rfl : n + 1 = start := Option.some.inj h
          have hn : n < p.toList.length := (List.getElem?_eq_some_iff.mp hbyte).1
          have htake : p.toList.take (n + 1) = p.toList.take n ++ [newline] := by
            rw [List.take_add_one, hbyte]
            rfl
          refine ⟨p.toList.take (n + 1), List.take_prefix _ _, .inr ⟨_, htake⟩,
            List.length_take_of_le hn, ?_⟩
          rw [htake, List.count_append, List.count_singleton_self, ← size_startsWithin]
          exact Eq.symm ‹_›
        · exact ih h
      · rw [if_neg hbyte] at h
        exact ih h

end

end LineIndex

theorem length_splitOn (bytes : List UInt8) :
    (bytes.splitOn newline).length = bytes.count newline + 1 := by
  induction bytes with
  | nil => rfl
  | cons b bytes ih =>
      rw [List.splitOn_cons_eq_if_modifyHead, List.count_cons]
      split <;> simp [ih]

/-- The octets of a program, cut at the line that holds a position. The line comes without its
newline. -/
structure CutAt (p : Program) (pc : Nat) (front line rest : List UInt8) : Prop where
  toList : p.toList = front ++ (line ++ rest)
  opens : OpensLine front
  noNewline : newline ∉ line
  closes : rest = [] ∨ ∃ later, rest = newline :: later
  le : front.length ≤ pc
  lt : pc < front.length + line.length

namespace CutAt

variable {p : Program} {pc : Nat} {front line rest : List UInt8}

theorem size_eq (h : CutAt p pc front line rest) :
    p.size = front.length + (line.length + rest.length) := by
  rw [← Program.length_toList, h.toList, List.length_append, List.length_append]

theorem getElem? (h : CutAt p pc front line rest) :
    (line)[pc - front.length]? = p.toList[pc]? := by
  have hle := h.le
  have hlt := h.lt
  rw [h.toList, List.getElem?_append_right hle, List.getElem?_append_left (by omega)]

/-- The line is the one that splitting the program finds behind the same number of newlines. -/
theorem splitOn (h : CutAt p pc front line rest) :
    (p.toList.splitOn newline)[front.count newline]? = some line := by
  have hline : ((line ++ rest).splitOn newline)[0]? = some line := by
    rcases h.closes with rfl | ⟨later, rfl⟩
    · rw [List.append_nil, List.splitOn_eq_singleton h.noNewline]
      rfl
    · rw [List.splitOn_append_cons_of_beq _ _ (beq_self_eq_true newline),
        List.splitOn_eq_singleton h.noNewline]
      rfl
  rw [h.toList]
  rcases h.opens with rfl | ⟨earlier, rfl⟩
  · exact hline
  · rw [List.append_assoc, List.singleton_append,
      List.splitOn_append_cons_of_beq _ _ (beq_self_eq_true newline), List.count_append,
      List.count_singleton_self, ← length_splitOn, List.getElem?_append_right (Nat.le_refl _),
      Nat.sub_self]
    exact hline

end CutAt

section
variable {p : Program} {pc : Nat} {front : List UInt8} (hopens : OpensLine front)
  (hle : front.length ≤ pc)
include hopens hle

/-- The last line reaches to the end of the program. -/
theorem cutAt_of_last {line : List UInt8} (htoList : p.toList = front ++ line) (hpc : pc < p.size)
    (hcount : p.toList.count newline = front.count newline) : CutAt p pc front line [] := by
  have hnone : line.count newline = 0 := by
    rw [htoList, List.count_append] at hcount
    omega
  refine ⟨by rwa [List.append_nil], hopens, List.count_eq_zero.mp hnone, .inl rfl, hle, ?_⟩
  rwa [← List.length_append, ← htoList, p.length_toList]

/-- Between the starts of two lines one after the other stands a line and its newline. -/
theorem exists_cutAt_of_next {upTo later : List UInt8} (htoList : p.toList = upTo ++ later)
    (hfront : front <+: p.toList) (hlt : pc < upTo.length) (hnext : OpensLine upTo)
    (hcount : upTo.count newline = front.count newline + 1)
    (hbyte : p.toList[pc]? ≠ some newline) :
    ∃ line, CutAt p pc front line (newline :: later) ∧ upTo = front ++ (line ++ [newline]) := by
  rcases hnext with rfl | ⟨earlier, rfl⟩
  · cases hlt
  rw [List.length_append, List.length_singleton] at hlt
  have hearlier : earlier <+: p.toList := ⟨newline :: later, by simp [htoList]⟩
  -- The line starts at or before its newline, so the front is a part of what precedes that.
  obtain ⟨line, rfl⟩ := List.prefix_of_prefix_length_le hfront hearlier (by omega)
  have hnone : line.count newline = 0 := by
    simp only [List.count_append, List.count_singleton_self] at hcount
    omega
  have hsplit : p.toList = front ++ (line ++ newline :: later) := by
    simp [htoList]
  have hne : pc ≠ front.length + line.length := by
    rintro rfl
    apply hbyte
    simp [hsplit]
  rw [List.length_append] at hlt
  refine ⟨line, ⟨hsplit, hopens, List.count_eq_zero.mp hnone, .inr ⟨later, rfl⟩, hle, ?_⟩, ?_⟩
  · omega
  · rw [List.append_assoc]

end

namespace LineIndex

variable {p : Program}

theorem size_starts (p : Program) : (ofProgram p).starts.size = p.toList.count newline + 1 := by
  have hsize := size_startsWithin p p.size
  rw [← p.length_toList, List.take_length] at hsize
  exact hsize

/-- A line of the index starts behind as many newlines as its number says. -/
theorem exists_front {line : Nat} (h : line < (ofProgram p).starts.size) :
    ∃ front, front <+: p.toList ∧ OpensLine front ∧ front.count newline = line ∧
      (ofProgram p).starts[line]? = some front.length ∧
      (ofProgram p).start line = front.length := by
  have hstart := Array.getElem?_eq_getElem h
  obtain ⟨front, hprefix, hopens, hlength, hcount⟩ := exists_front_of_startsWithin hstart
  rw [← hlength] at hstart
  refine ⟨front, hprefix, hopens, hcount, hstart, ?_⟩
  rw [start, hstart]
  rfl

theorem start_zero (p : Program) : (ofProgram p).start 0 = 0 := by
  have hsize : 0 < (ofProgram p).starts.size := by
    rw [size_starts]
    exact Nat.succ_pos _
  obtain ⟨front, _, hopens, hcount, _, hstart⟩ := exists_front hsize
  rcases hopens with rfl | ⟨earlier, rfl⟩
  · exact hstart
  · rw [List.count_append, List.count_singleton_self] at hcount
    cases hcount

theorem lineOf_lt_size (p : Program) (position : Int) :
    (ofProgram p).lineOf position < (ofProgram p).starts.size := by
  have hsize := size_starts p
  have hmem : 0 ≤ (ofProgram p).lineOf position ∧
      (ofProgram p).lineOf position ≤ (ofProgram p).starts.size - 1 := search_mem (Nat.zero_le _)
  omega

theorem start_lineOf_le (p : Program) (pc : Nat) :
    (ofProgram p).start ((ofProgram p).lineOf pc) ≤ pc := by
  have hle : ((ofProgram p).start ((ofProgram p).lineOf pc) : Int) ≤ pc := by
    apply start_search_le
    rw [start_zero]
    exact Int.natCast_nonneg pc
  exact Int.ofNat_le.mp hle

/-- Columns inside a program are exact. -/
theorem locate_of_lt {pc : Nat} (hpc : pc < p.size) (hsize : p.size ≤ Binary64.maxSafeInteger) :
    (ofProgram p).locate pc = ⟨(ofProgram p).lineOf pc + 1,
      ((pc - (ofProgram p).start ((ofProgram p).lineOf pc) : Nat) : Int) + 1⟩ := by
  have hle := start_lineOf_le p pc
  unfold locate
  dsimp only
  generalize (ofProgram p).start ((ofProgram p).lineOf pc) = first at hle ⊢
  have hoffset : Binary64.roundInt (pc - first) = (pc - first : Nat) := by
    rw [Binary64.roundInt_of_natAbs_le (by omega)]
    omega
  rw [hoffset, Binary64.roundInt_of_natAbs_le (by omega)]

theorem toList_extract (p : Program) (start stop : Nat) :
    (p.bytes.extract start stop).toList = (p.toList.take stop).drop start := by
  rw [Array.toList_extract, List.extract_eq_take_drop, List.drop_take]
  rfl

/-- A position in the program cuts it at the line that the index finds for it. -/
theorem exists_cutAt {pc : Nat} (hpc : pc < p.size) (hbyte : p.toList[pc]? ≠ some newline) :
    ∃ front line rest, CutAt p pc front line rest ∧
      (ofProgram p).lineOf pc = front.count newline ∧
      (ofProgram p).start (front.count newline) = front.length ∧
      (p.bytes.extract front.length
        ((ofProgram p).starts[front.count newline + 1]?.getD p.size)).toList =
          line ++ rest.take 1 := by
  have hlt := lineOf_lt_size p pc
  have hle := start_lineOf_le p pc
  have hafter : (ofProgram p).lineOf pc < (ofProgram p).starts.size - 1 →
      (pc : Int) < (ofProgram p).start ((ofProgram p).lineOf pc + 1) :=
    lt_start_search (Nat.zero_le _)
  generalize (ofProgram p).lineOf pc = number at *
  obtain ⟨front, hprefix, hopens, rfl, _, hstart⟩ := exists_front hlt
  rw [hstart] at hle
  by_cases hnext : front.count newline + 1 < (ofProgram p).starts.size
  · obtain ⟨upTo, ⟨later, htoList⟩, hnextOpens, hnextCount, hstop, hnextStart⟩ :=
      exists_front hnext
    have hpcNext := hafter (by omega)
    rw [hnextStart] at hpcNext
    obtain ⟨line, hcut, rfl⟩ := exists_cutAt_of_next hopens hle htoList.symm hprefix
      (by omega) hnextOpens hnextCount hbyte
    refine ⟨front, line, newline :: later, hcut, rfl, hstart, ?_⟩
    rw [toList_extract, hstop, Option.getD_some, ← htoList, List.take_left, List.drop_left]
    rfl
  · obtain ⟨line, htoList⟩ := hprefix
    have hsize := size_starts p
    have hcut := cutAt_of_last hopens hle htoList.symm hpc (by omega)
    refine ⟨front, line, [], hcut, rfl, hstart, ?_⟩
    rw [toList_extract, Array.getElem?_eq_none (by omega), Option.getD_none, ← p.length_toList,
      List.take_length, ← htoList, List.drop_left]
    exact (List.append_nil _).symm

end LineIndex

end Brainfuck
