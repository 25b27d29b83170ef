import Brainfuck.Proofs.JumpTable
import Brainfuck.Proofs.Nesting
import Mathlib.Algebra.Ring.Nat

/-!
# Pairs of brackets

The pairs of a program are a matter of its text: two brackets belong together if the segment
between them is balanced. A scan finds the bracket that ends a balanced segment, whatever its
origin, and the jump table holds the pairs, each at both of its ends. So the shape of the
table follows from the nesting of segments, without another look at the pass that fills it:
no pair crosses another, a pair has only pairs inside, and what is left over is closing
brackets followed by opening ones.

A stored table has words of 32 bits. They are wide enough for the positions of any program
of up to two to the power of 31 octets.
-/
namespace Brainfuck.Bracket

/-- From behind `origin` the segment up to `j` is balanced, and a closing bracket ends it.
Positions before the program count as its start. -/
structure ClosesFrom (p : Program) (origin : Int) (j : Nat) : Prop where
  le : max (origin + 1) 0 ≤ j
  lt_size : j < p.size
  closing : p.instruction? j = some .closing
  balanced : Balanced (p.slice (max (origin + 1) 0).toNat j)

/-- Up to `origin` the segment from behind `j` is balanced, and an opening bracket stands
before it. Positions past the program count as its end. -/
structure OpensUpTo (p : Program) (origin : Int) (j : Nat) : Prop where
  lt : (j : Int) < min origin p.size
  opening : p.instruction? j = some .opening
  balanced : Balanced (p.slice (j + 1) (min origin p.size).toNat)

section
variable {p : Program} {origin : Int} {j : Nat}

theorem scanForward_iff_closesFrom : scanForward p origin = some j ↔ ClosesFrom p origin j := by
  have hstart : (origin + 1).toNat = (max (origin + 1) 0).toNat := by omega
  rw [scanForward, hstart, scanForwardFrom_eq_some_iff, ← balanced_iff_nesting]
  constructor
  · rintro ⟨hle, hclosing, hbalanced⟩
    exact ⟨by omega, Program.lt_size_of_instruction?_eq_some hclosing, hclosing, hbalanced⟩
  · rintro ⟨hle, _, hclosing, hbalanced⟩
    exact ⟨by omega, hclosing, hbalanced⟩

theorem scanBackward_iff_opensUpTo : scanBackward p origin = some j ↔ OpensUpTo p origin j := by
  have hstop : (min origin p.size).toNat ≤ p.size := by omega
  rw [scanBackward, scanBackwardFrom_eq_some_iff hstop, ← balanced_iff_nesting]
  constructor
  · rintro ⟨hlt, hopening, hbalanced⟩
    exact ⟨by omega, hopening, hbalanced⟩
  · rintro ⟨hlt, hopening, hbalanced⟩
    exact ⟨by omega, hopening, hbalanced⟩

end

/-- An entry of a stored table. A missing partner is stored as minus one. -/
def JumpTable.word : Option Nat → Int32
  | none => -1
  | some partner => Int32.ofNat partner

theorem JumpTable.toInt_word {entry : Option Nat} (h : ∀ partner ∈ entry, partner < 2 ^ 31) :
    (word entry).toInt = entry.elim (-1) fun partner => (partner : Int) := by
  cases entry with
  | none => rfl
  | some partner => exact Int32.toInt_ofNat_of_lt (h partner rfl)

section
variable {p : Program} {i j k l : Nat}

theorem JumpTable.getElem?_build (hi : i < p.size) :
    (build p)[i]? = some ((build p).partner? i) := by
  have hsize : i < (build p).size := by rwa [size_build]
  rw [partner?_natCast, Array.getElem?_eq_getElem hsize]
  rfl

theorem JumpTable.partner?_build_iff :
    (build p).partner? i = some j ↔ Partners p i j ∨ Partners p j i := by
  by_cases ho : p.instruction? i = some .opening
  · have hbehind : ¬ Partners p j i := fun h => by simpa [ho] using h.closing
    rw [partner?_opening ho, scanForward_eq_some_iff ho, or_iff_left hbehind]
  · have hbefore : ¬ Partners p i j := fun h => ho h.opening
    by_cases hc : p.instruction? i = some .closing
    · rw [partner?_closing hc, scanBackward_eq_some_iff hc, or_iff_right hbefore]
    · have hbehind : ¬ Partners p j i := fun h => hc h.closing
      simp [partner?_other ho hc, hbefore, hbehind]

theorem Partners.lt_size (h : Partners p i j) : j < p.size :=
  Program.lt_size_of_instruction?_eq_some h.closing

end

/-- The table against the scans. An opening bracket is entered with what the forward scan from
it finds, a closing bracket with what the backward scan finds, and an octet that is no bracket
without a partner. Up to two to the power of 31 octets, a stored entry is the partner itself,
and minus one where there is none. -/
theorem JumpTable.build_eq_scans {p : Program} {i : Nat} (hi : i < p.size) :
    ∃ entry, (build p)[i]? = some entry ∧
      (p.instruction? i = some .opening → entry = scanForward p i) ∧
      (p.instruction? i = some .closing → entry = scanBackward p i) ∧
      (p.instruction? i ≠ some .opening → p.instruction? i ≠ some .closing → entry = none) ∧
      (p.size ≤ 2 ^ 31 →
        (word entry).toInt = entry.elim (-1) fun partner => (partner : Int)) := by
  refine ⟨(build p).partner? i, getElem?_build hi, fun h => partner?_opening h,
    fun h => partner?_closing h, fun ho hc => partner?_other ho hc, ?_⟩
  intro hsize
  apply toInt_word
  intro partner hpartner
  rcases partner?_build_iff.mp hpartner with hpair | hpair
  · exact Nat.lt_of_lt_of_le hpair.lt_size hsize
  · exact Nat.lt_of_lt_of_le (Nat.lt_trans hpair.lt hpair.lt_size) hsize

/-- Between two pairs a bracket of each kind is left over. -/
theorem JumpTable.build_of_leftover :
    let p := Program.ofText "[]]a[[]"
    (build p).toList.map word = [1, 0, -1, -1, -1, 6, 5] ∧ 4 < p.size ∧ p.size ≤ 2 ^ 31 ∧
      p.instruction? 4 = some .opening ∧ scanForward p 4 = none ∧
      ∃ entry, (build p)[4]? = some entry ∧ (word entry).toInt = -1 := by
  intro p
  have hindex : 4 < p.size := by decide +kernel
  have hsize : p.size ≤ 2 ^ 31 := by decide +kernel
  have hopening : p.instruction? 4 = some .opening := by decide +kernel
  have hnone : (build p)[4]? = some none := by decide +kernel
  obtain ⟨entry, hentry, hforward, _, _, hword⟩ := build_eq_scans hindex
  obtain rfl : none = entry := Option.some.inj (hnone.symm.trans hentry)
  exact ⟨by decide +kernel, hindex, hsize, hopening, (hforward hopening).symm, none, hentry,
    hword hsize⟩

section
variable {p : Program} {i j k l : Nat}

theorem JumpTable.not_partners_of_none (h : (build p).partner? i = none) :
    ¬ Partners p i j ∧ ¬ Partners p j i := by
  rw [← not_or, ← partner?_build_iff, h]
  nofun

theorem Partners.nesting_eq (h : Partners p i j) : nesting 0 (p.slice (i + 1) j) = some 0 :=
  balanced_iff_nesting.mp h.balanced

/-- A pair that opens inside another one closes inside it. -/
theorem Partners.closing_lt (h : Partners p i j) (hkl : Partners p k l) (hik : i < k)
    (hkj : k < j) : l < j := by
  obtain ⟨d, d', _, ht, hrest⟩ :=
    nesting_around hik hkj (Program.instruction?_eq_some_iff.mp hkl.opening) h.nesting_eq
  obtain rfl : d + 1 = d' := by simpa using ht
  by_contra hjl
  obtain ⟨e, he, _⟩ := nesting_split hkj (Nat.le_of_not_lt hjl) hkl.nesting_eq
  -- The inner loop would still be open where the outer one ends.
  have hopen := nesting_add he (d + 1)
  rw [Nat.zero_add, hrest] at hopen
  simp at hopen

theorem Partners.closing_unique (h : Partners p i j) (h' : Partners p i k) : j = k := by
  have hj := (scanForward_eq_some_iff h.opening).mpr h
  have hk := (scanForward_eq_some_iff h.opening).mpr h'
  exact Option.some.inj (hj.symm.trans hk)

/-- A pair that closes inside another one opens inside it. -/
theorem Partners.lt_opening (h : Partners p i j) (hlk : Partners p l k) (hik : i < k)
    (hkj : k < j) : i < l := by
  rcases Nat.lt_trichotomy i l with hil | rfl | hli
  · exact hil
  · exact absurd (hlk.closing_unique h) (Nat.ne_of_lt hkj)
  · have hjk := hlk.closing_lt h hli hik
    omega

end

/-- A table that has an entry for each octet of a program and pairs its brackets as far as they
can be paired. -/
structure JumpTable.WellNested (p : Program) (table : JumpTable) : Prop where
  size : table.size = p.size
  /-- A pair is entered at both of its ends. -/
  symmetric : ∀ {i j : Nat}, table.partner? i = some j → table.partner? j = some i
  /-- A pair is an opening bracket and a closing bracket behind it. -/
  brackets : ∀ {i j : Nat}, table.partner? i = some j → i ≠ j ∧ i < p.size ∧ j < p.size ∧
    p.instruction? (min i j) = some .opening ∧ p.instruction? (max i j) = some .closing
  /-- No two pairs cross. -/
  nested : ∀ {i j k l : Nat}, table.partner? i = some j → i < k → k < j →
    table.partner? k = some l → i < l ∧ l < j
  /-- Every bracket inside a pair is paired. -/
  complete : ∀ {i j k : Nat}, table.partner? i = some j → i < k → k < j →
    p.instruction? k = some .opening ∨ p.instruction? k = some .closing →
    ∃ l, table.partner? k = some l
  /-- No opening bracket that is left over comes before a closing one that is. -/
  leftover : ∀ {i k : Nat}, p.instruction? i = some .opening → table.partner? i = none →
    p.instruction? k = some .closing → table.partner? k = none → k < i

section
variable {p : Program} {i j k l : Nat}

/-- An entry that points forward is that of an opening bracket. -/
theorem JumpTable.partners_of_lt (h : (build p).partner? i = some j) (hij : i < j) :
    Partners p i j := by
  rcases partner?_build_iff.mp h with hpair | hpair
  · exact hpair
  · exact absurd hpair.lt (Nat.lt_asymm hij)

theorem Partners.exists_entry (h : Partners p i j) (hik : i < k) (hkj : k < j)
    (hk : p.instruction? k = some .opening ∨ p.instruction? k = some .closing) :
    ∃ l, (JumpTable.build p).partner? k = some l := by
  rcases hk with hopening | hclosing
  · obtain ⟨l, hl⟩ := exists_closing_of_nesting hik hkj (Nat.le_of_lt h.lt_size) hopening
      h.nesting_eq
    exact ⟨l, JumpTable.partner?_build_iff.mpr (.inl hl)⟩
  · obtain ⟨l, hl⟩ := exists_opening_of_nesting hik hkj hclosing h.nesting_eq
    exact ⟨l, JumpTable.partner?_build_iff.mpr (.inr hl)⟩

/-- Behind an opening bracket without a partner every closing bracket has one. -/
theorem exists_opening_of_unclosed (hi : p.instruction? i = some .opening)
    (hnone : ∀ j, ¬ Partners p i j) (hk : p.instruction? k = some .closing) (hik : i < k) :
    ∃ l, Partners p l k := by
  have hscan : scanForward p i = none := by
    rw [Option.eq_none_iff_forall_ne_some]
    intro j hj
    exact hnone j ((scanForward_eq_some_iff hi).mp hj)
  rw [scanForward_natCast] at hscan
  obtain ⟨e, he⟩ :=
    exists_nesting_of_scanForwardFrom (Program.lt_size_of_instruction?_eq_some hi) hscan
  exact exists_opening_of_nesting hik (Program.lt_size_of_instruction?_eq_some hk) hk he

end

/-- The jump table of a program pairs its brackets as far as they can be paired. -/
theorem JumpTable.wellNested_build (p : Program) : WellNested p (build p) where
  size := size_build p
  symmetric h := partner?_build_iff.mpr (partner?_build_iff.mp h).symm
  brackets {i j} h := by
    rcases partner?_build_iff.mp h with hpair | hpair
    · have hlt := hpair.lt
      rw [Nat.min_eq_left (Nat.le_of_lt hlt), Nat.max_eq_right (Nat.le_of_lt hlt)]
      exact ⟨Nat.ne_of_lt hlt, Nat.lt_trans hlt hpair.lt_size, hpair.lt_size, hpair.opening,
        hpair.closing⟩
    · have hlt := hpair.lt
      rw [Nat.min_eq_right (Nat.le_of_lt hlt), Nat.max_eq_left (Nat.le_of_lt hlt)]
      exact ⟨Nat.ne_of_gt hlt, hpair.lt_size, Nat.lt_trans hlt hpair.lt_size, hpair.opening,
        hpair.closing⟩
  nested {i j k l} h hik hkj hk := by
    have hpair := partners_of_lt h (Nat.lt_trans hik hkj)
    rcases partner?_build_iff.mp hk with hkl | hlk
    · exact ⟨Nat.lt_trans hik hkl.lt, hpair.closing_lt hkl hik hkj⟩
    · exact ⟨hpair.lt_opening hlk hik hkj, Nat.lt_trans hlk.lt hkj⟩
  complete h hik hkj hk := (partners_of_lt h (Nat.lt_trans hik hkj)).exists_entry hik hkj hk
  leftover {i k} hi hinone hk hknone := by
    by_contra hki
    have hne : i ≠ k := by
      rintro rfl
      simp [hi] at hk
    have hik : i < k := by omega
    obtain ⟨l, hl⟩ := exists_opening_of_unclosed hi
      (fun j => (not_partners_of_none hinone).1) hk hik
    exact (not_partners_of_none hknone).2 hl

end Brainfuck.Bracket
