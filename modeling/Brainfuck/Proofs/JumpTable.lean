import Brainfuck.Bracket.Strategy

/-!
# Jump tables against scans

The pairing pass keeps a stack of waiting openings, and a scan keeps a depth. The two are
the same bookkeeping: scanning backward from `n` with depth `d` finds the entry of the
stack at depth `d` after the first `n` octets, and scanning forward from `n` with depth `d`
finds the octet that will take this entry off the stack. An entry of the table is written
once, when its pair is complete, and is never changed afterwards.

Away from brackets of the right kind a lookup and a scan may differ, but a running program
never asks there.
-/
namespace Brainfuck.Bracket

namespace Pairing

theorem step_opening {p : Program} {n : Nat} (h : p.instruction? n = some .opening)
    (pairing : Pairing) :
    step p pairing n = ⟨pairing.table, n :: pairing.waiting⟩ := by
  simp [step, h]

theorem step_closing_nil {p : Program} {n : Nat} (h : p.instruction? n = some .closing)
    {pairing : Pairing} (hw : pairing.waiting = []) : step p pairing n = pairing := by
  obtain ⟨table, waiting⟩ := pairing
  subst hw
  simp [step, h]

theorem step_closing_cons {p : Program} {n : Nat} (h : p.instruction? n = some .closing)
    {pairing : Pairing} {start : Nat} {rest : List Nat}
    (hw : pairing.waiting = start :: rest) :
    step p pairing n =
      ⟨(pairing.table.setIfInBounds start (some n)).setIfInBounds n (some start), rest⟩ := by
  obtain ⟨table, waiting⟩ := pairing
  subst hw
  simp [step, h]

theorem step_other {p : Program} {n : Nat} (ho : p.instruction? n ≠ some .opening)
    (hc : p.instruction? n ≠ some .closing) (pairing : Pairing) :
    step p pairing n = pairing := by
  unfold step
  split
  · exact (ho ‹_›).elim
  · exact (hc ‹_›).elim
  · rfl

/-- The backward scan reads the stack: the entry at depth `d` is what it finds. -/
theorem scanBackwardFrom_eq_waiting (p : Program) (n d : Nat) :
    scanBackwardFrom p d n = (after p n).waiting[d]? := by
  induction n generalizing d with
  | zero => simp [initial]
  | succ n ih =>
      rw [after_succ]
      by_cases ho : p.instruction? n = some .opening
      · rw [step_opening ho]
        cases d with
        | zero => rw [scanBackwardFrom_opening_zero ho]; rfl
        | succ d => rw [scanBackwardFrom_opening_succ d ho, ih]; rfl
      · by_cases hc : p.instruction? n = some .closing
        · rw [scanBackwardFrom_closing d hc, ih]
          cases hw : (after p n).waiting with
          | nil => simp [step_closing_nil hc hw, hw]
          | cons start rest => simp [step_closing_cons hc hw]
        · rw [scanBackwardFrom_other d ho hc, step_other ho hc, ih]

/-- The state of the pass after `n` octets: the stack holds distinct earlier positions
that have no partner yet, and nothing is written ahead of the pass. -/
structure Sound (n : Nat) (pairing : Pairing) : Prop where
  waiting_lt : ∀ i ∈ pairing.waiting, i < n
  nodup : pairing.waiting.Nodup
  waiting_free : ∀ i ∈ pairing.waiting, pairing.table[i]?.join = none
  ahead_free : ∀ i, n ≤ i → pairing.table[i]?.join = none

theorem sound_initial (p : Program) : (initial p).Sound 0 where
  waiting_lt := by simp [initial]
  nodup := by simp [initial]
  waiting_free := by simp [initial]
  ahead_free := by
    intro i _
    by_cases hi : i < p.size <;> simp [initial, hi]

/-- A write of a pair touches the entries of its two ends only. -/
theorem getElem?_write_of_ne {table : JumpTable} {start n i : Nat} (hs : i ≠ start)
    (hn : i ≠ n) :
    ((table.setIfInBounds start (some n)).setIfInBounds n (some start))[i]? = table[i]? := by
  rw [Array.getElem?_setIfInBounds_ne (Ne.symm hn),
    Array.getElem?_setIfInBounds_ne (Ne.symm hs)]

theorem Sound.step {p : Program} {n : Nat} {pairing : Pairing} (h : pairing.Sound n) :
    (Pairing.step p pairing n).Sound (n + 1) := by
  by_cases ho : p.instruction? n = some .opening
  · rw [step_opening ho]
    refine ⟨?_, ?_, ?_, ?_⟩
    · intro i hi
      rcases List.mem_cons.mp hi with rfl | hi
      · exact Nat.lt_succ_self _
      · exact Nat.lt_succ_of_lt (h.waiting_lt i hi)
    · refine List.nodup_cons.mpr ⟨?_, h.nodup⟩
      intro hn
      exact Nat.lt_irrefl n (h.waiting_lt n hn)
    · intro i hi
      rcases List.mem_cons.mp hi with rfl | hi
      · exact h.ahead_free _ (Nat.le_refl _)
      · exact h.waiting_free i hi
    · intro i hi
      exact h.ahead_free i (Nat.le_of_succ_le hi)
  · by_cases hc : p.instruction? n = some .closing
    · cases hw : pairing.waiting with
      | nil =>
          rw [step_closing_nil hc hw]
          exact ⟨by simp [hw], h.nodup, h.waiting_free,
            fun i hi => h.ahead_free i (Nat.le_of_succ_le hi)⟩
      | cons start rest =>
          rw [step_closing_cons hc hw]
          have hnodup := h.nodup
          rw [hw, List.nodup_cons] at hnodup
          have hlt : ∀ i ∈ start :: rest, i < n := hw ▸ h.waiting_lt
          refine ⟨?_, hnodup.2, ?_, ?_⟩
          · intro i hi
            exact Nat.lt_succ_of_lt (hlt i (List.mem_cons_of_mem _ hi))
          · intro i hi
            have hn := hlt i (List.mem_cons_of_mem _ hi)
            have hs : i ≠ start := fun he => hnodup.1 (he ▸ hi)
            dsimp only
            rw [getElem?_write_of_ne hs (Nat.ne_of_lt hn)]
            exact h.waiting_free i (hw ▸ List.mem_cons_of_mem _ hi)
          · intro i hi
            have hs := hlt start List.mem_cons_self
            dsimp only
            rw [getElem?_write_of_ne (by omega) (by omega)]
            exact h.ahead_free i (Nat.le_of_succ_le hi)
    · rw [step_other ho hc]
      exact ⟨fun i hi => Nat.lt_succ_of_lt (h.waiting_lt i hi), h.nodup, h.waiting_free,
        fun i hi => h.ahead_free i (Nat.le_of_succ_le hi)⟩

theorem sound_after (p : Program) (n : Nat) : (after p n).Sound n := by
  induction n with
  | zero => exact sound_initial p
  | succ n ih => exact ih.step

/-- Once a position is behind the pass and off the stack, its entry stays. -/
theorem settled {p : Program} {i n : Nat} (hi : i < n) (hw : i ∉ (after p n).waiting)
    {k : Nat} (hk : n ≤ k) :
    i ∉ (after p k).waiting ∧ (after p k).table[i]? = (after p n).table[i]? := by
  induction hk with
  | refl => exact ⟨hw, rfl⟩
  | @step k hk ih =>
      obtain ⟨hmem, htable⟩ := ih
      have hik : i < k := Nat.lt_of_lt_of_le hi hk
      rw [after_succ]
      by_cases ho : p.instruction? k = some .opening
      · rw [step_opening ho]
        refine ⟨?_, htable⟩
        intro h
        rcases List.mem_cons.mp h with rfl | h
        · omega
        · exact hmem h
      · by_cases hc : p.instruction? k = some .closing
        · cases hwk : (after p k).waiting with
          | nil => exact (step_closing_nil hc hwk).symm ▸ ⟨hmem, htable⟩
          | cons start rest =>
              rw [step_closing_cons hc hwk]
              rw [hwk, List.mem_cons, not_or] at hmem
              refine ⟨hmem.2, ?_⟩
              dsimp only
              rw [getElem?_write_of_ne hmem.1 (by omega), htable]
        · exact (step_other ho hc (after p k)).symm ▸ ⟨hmem, htable⟩

/-- What a closing bracket finds on the stack is its entry for good. -/
theorem table_of_closing {p : Program} {n : Nat} (hc : p.instruction? n = some .closing) :
    (after p p.size).table[n]?.join = (after p n).waiting[0]? := by
  have hn := Program.lt_size_of_instruction?_eq_some hc
  have hsound := sound_after p n
  have hsize := size_table_after p n
  cases hw : (after p n).waiting with
  | nil =>
      have hstep : after p (n + 1) = after p n := step_closing_nil hc hw
      have hfree : n ∉ (after p (n + 1)).waiting := by simp [hstep, hw]
      rw [(settled (Nat.lt_succ_self n) hfree hn).2, hstep]
      exact hsound.ahead_free n (Nat.le_refl n)
  | cons start rest =>
      have hstep := step_closing_cons hc hw
      have hfree : n ∉ (after p (n + 1)).waiting := by
        rw [after_succ, hstep]
        intro h
        exact Nat.lt_irrefl n (hsound.waiting_lt n (hw ▸ List.mem_cons_of_mem _ h))
      rw [(settled (Nat.lt_succ_self n) hfree hn).2, after_succ, hstep]
      simp [hsize, hn]

/-- An octet that is no bracket leaves its entry as it was. -/
theorem table_of_other {p : Program} {n : Nat} (ho : p.instruction? n ≠ some .opening)
    (hc : p.instruction? n ≠ some .closing) : (after p p.size).table[n]?.join = none := by
  have hsound := sound_after p n
  by_cases hn : n < p.size
  · have hstep : after p (n + 1) = after p n := step_other ho hc (after p n)
    have hfree : n ∉ (after p (n + 1)).waiting := by
      rw [hstep]
      intro h
      exact Nat.lt_irrefl n (hsound.waiting_lt n h)
    rw [(settled (Nat.lt_succ_self n) hfree hn).2, hstep]
    exact hsound.ahead_free n (Nat.le_refl n)
  · exact (sound_after p p.size).ahead_free n (Nat.le_of_not_lt hn)

/-- The forward scan foresees the pass: from depth `d` it finds the octet that takes the
entry of the stack at depth `d` away. -/
theorem table_of_waiting {p : Program} {n d i : Nat} (hn : n ≤ p.size)
    (hi : (after p n).waiting[d]? = some i) :
    (after p p.size).table[i]?.join = scanForwardFrom p d n := by
  -- Downward from the end of the program: `k` octets are still to come.
  induction hk : p.size - n generalizing n d with
  | zero =>
      have he : n = p.size := by omega
      subst he
      rw [scanForwardFrom_end d (Nat.le_refl _)]
      exact (sound_after p p.size).waiting_free i (List.mem_of_getElem? hi)
  | succ k ih =>
      have hlt : n < p.size := by omega
      by_cases ho : p.instruction? n = some .opening
      · rw [scanForwardFrom_opening d ho]
        refine ih hlt ?_ (by omega)
        rw [after_succ, step_opening ho]
        exact hi
      · by_cases hc : p.instruction? n = some .closing
        · cases hw : (after p n).waiting with
          | nil => simp [hw] at hi
          | cons start rest =>
              have hstep := step_closing_cons hc hw
              cases d with
              | zero =>
                  have he : start = i := by simpa [hw] using hi
                  subst he
                  have hsound := sound_after p n
                  have hnodup := hsound.nodup
                  rw [hw, List.nodup_cons] at hnodup
                  have hs := hsound.waiting_lt start (by simp [hw])
                  have hfree : start ∉ (after p (n + 1)).waiting := by
                    rw [after_succ, hstep]
                    exact hnodup.1
                  rw [scanForwardFrom_closing_zero hc, (settled (by omega) hfree hlt).2,
                    after_succ, hstep]
                  dsimp only
                  rw [Array.getElem?_setIfInBounds_ne (by omega),
                    Array.getElem?_setIfInBounds_self_of_lt (by rw [size_table_after]; omega)]
                  rfl
              | succ d =>
                  rw [scanForwardFrom_closing_succ d hc]
                  refine ih hlt ?_ (by omega)
                  rw [after_succ, hstep]
                  simpa [hw] using hi
        · rw [scanForwardFrom_other d ho hc]
          refine ih hlt ?_ (by omega)
          rw [after_succ, step_other ho hc]
          exact hi

end Pairing

section
variable {p : Program} {pc : Nat}

theorem JumpTable.partner?_natCast (table : JumpTable) (n : Nat) :
    table.partner? n = table[n]?.join := by
  simp [JumpTable.partner?]

/-- At an opening bracket the table answers like the forward scan. -/
theorem JumpTable.partner?_opening (h : p.instruction? pc = some .opening) :
    (JumpTable.build p).partner? pc = scanForward p pc := by
  have hpc := Program.lt_size_of_instruction?_eq_some h
  rw [JumpTable.partner?_natCast, scanForward_natCast]
  refine Pairing.table_of_waiting hpc ?_
  rw [Pairing.after_succ, Pairing.step_opening h]
  rfl

/-- At a closing bracket the table answers like the backward scan. -/
theorem JumpTable.partner?_closing (h : p.instruction? pc = some .closing) :
    (JumpTable.build p).partner? pc = scanBackward p pc := by
  have hpc := Program.lt_size_of_instruction?_eq_some h
  rw [JumpTable.partner?_natCast, scanBackward_natCast (Nat.le_of_lt hpc),
    Pairing.scanBackwardFrom_eq_waiting]
  exact Pairing.table_of_closing h

/-- Away from brackets the table has no answer. -/
theorem JumpTable.partner?_other (ho : p.instruction? pc ≠ some .opening)
    (hc : p.instruction? pc ≠ some .closing) : (JumpTable.build p).partner? pc = none := by
  rw [JumpTable.partner?_natCast]
  exact Pairing.table_of_other ho hc

/-- Every strategy finds the closing bracket that the forward scan finds. -/
theorem Strategy.closing_matcher (s : Strategy) (h : p.instruction? pc = some .opening) :
    (s.matcher p).closing pc = scanForward p pc := by
  cases s with
  | scan => rfl
  | table => exact JumpTable.partner?_opening h

/-- Every strategy finds the opening bracket that the backward scan finds. -/
theorem Strategy.opening_matcher (s : Strategy) (h : p.instruction? pc = some .closing) :
    (s.matcher p).opening pc = scanBackward p pc := by
  cases s with
  | scan => rfl
  | table => exact JumpTable.partner?_closing h

end

end Brainfuck.Bracket
