import Brainfuck.Proofs.CellWidths
import Brainfuck.Proofs.Relocation
import Brainfuck.Proofs.StraightLine
import Brainfuck.Proofs.Stuttering

/-!
# Blocks of arithmetic

Octets that only add one or take one away do to the current cell what their sum does at
once, and the sum matters only up to the number of values of a cell. One such block can
therefore stand for another one with a congruent sum, wherever it is in a program: inside
loops, or between brackets that have no partners.

Two programs that differ in such a block are compared with the program without it. An octet
outside the block is the same in all three, and so is the partner of a bracket, because a
scan goes through the block without seeing anything. A machine that comes to the place of
the block goes through it in as many steps as it has octets, and these ask nothing of the
streams.
-/
namespace Brainfuck

open Brainfuck.Bracket

variable {host : Host}

namespace StraightLine

/-- Octets that only add one or take one away. -/
def Arithmetic (bytes : List UInt8) : Prop :=
  ∀ b ∈ bytes, b = Instruction.increment.toByte ∨ b = Instruction.decrement.toByte

instance (bytes : List UInt8) : Decidable (Arithmetic bytes) :=
  List.decidableBAll _ bytes

/-- How much octets add that add one or take one away, taken together. -/
def net (bytes : List UInt8) : Int :=
  bytes.count Instruction.increment.toByte - bytes.count Instruction.decrement.toByte

section
variable {rest : List UInt8}

theorem net_increment : net (Instruction.increment.toByte :: rest) = 1 + net rest := by
  have hne : Instruction.increment.toByte ≠ Instruction.decrement.toByte := by decide
  unfold net
  rw [List.count_cons_self, List.count_cons_of_ne hne]
  omega

theorem net_decrement : net (Instruction.decrement.toByte :: rest) = -1 + net rest := by
  have hne : Instruction.decrement.toByte ≠ Instruction.increment.toByte := by decide
  unfold net
  rw [List.count_cons_self, List.count_cons_of_ne hne]
  omega

theorem net_replicate_increment (n : Nat) :
    net (List.replicate n Instruction.increment.toByte) = n := by
  induction n with
  | zero => rfl
  | succ n ih =>
      rw [List.replicate_succ, net_increment, ih]
      omega

end

end StraightLine

open StraightLine

namespace Tape

variable {w : Nat}

theorem modify_modify (f g : BitVec w → BitVec w) (t : Tape w) :
    (t.modify f).modify g = t.modify fun c => g (f c) := by
  obtain ⟨cells, pointer⟩ := t
  simp only [modify, mk.injEq, and_true]
  refine Array.ext_getElem? fun i => ?_
  simp only [Array.getElem?_modify]
  split
  · rw [Option.map_map]
    rfl
  · rfl

/-- Amounts that are added one after another are added at once. -/
theorem modify_add_add (z z' : Int) (t : Tape w) :
    (t.modify (· + BitVec.ofInt w z)).modify (· + BitVec.ofInt w z') =
      t.modify (· + BitVec.ofInt w (z + z')) := by
  rw [modify_modify]
  simp only [BitVec.add_assoc, ← BitVec.ofInt_add]

theorem modify_add_zero (t : Tape w) : t.modify (· + BitVec.ofInt w 0) = t := by
  obtain ⟨cells, pointer⟩ := t
  simp only [modify, mk.injEq, and_true]
  refine Array.ext_getElem? fun i => ?_
  simp [Array.getElem?_modify]

/-- A block of arithmetic adds its sum, wrapped around once. -/
theorem obeyAll_arithmetic {bytes : List UInt8} (h : Arithmetic bytes) (t : Tape w) :
    t.obeyAll bytes = some (t.modify (· + BitVec.ofInt w (net bytes))) := by
  induction bytes generalizing t with
  | nil => exact congrArg some (modify_add_zero t).symm
  | cons b rest ih =>
      obtain ⟨hb, hrest⟩ := List.forall_mem_cons.mp h
      rw [obeyAll_cons]
      rcases hb with rfl | rfl
      · have hobey : t.obey Instruction.increment.toByte =
            some (t.modify (· + BitVec.ofInt w 1)) := rfl
        rw [hobey, Option.bind_some, ih hrest, modify_add_add, net_increment]
      · have hobey : t.obey Instruction.decrement.toByte =
            some (t.modify (· + BitVec.ofInt w (-1))) := congrArg some (decrement_eq t)
        rw [hobey, Option.bind_some, ih hrest, modify_add_add, net_decrement]

end Tape

/-- Where a position goes when `n` octets are put in front of position `k`. -/
def gap (k n pc : Nat) : Nat := if pc < k then pc else pc + n

/-- Where a position comes from when `n` octets have been put in front of position `k`. The
new octets come from `k`. -/
def closeGap (k n pc : Nat) : Nat := min pc k + (pc - (k + n))

/-- Positions from `k` on, moved by an amount, as positions of faults are written. -/
def displace (k amount position : Int) : Int :=
  if position < k then position else position + amount

section
variable {k n n' pc : Nat}

theorem gap_of_lt (h : pc < k) : gap k n pc = pc := if_pos h

theorem gap_of_le (h : k ≤ pc) : gap k n pc = pc + n := if_neg (Nat.not_lt.mpr h)

theorem gap_succ_succ (k n pc : Nat) : gap (k + 1) n (pc + 1) = gap k n pc + 1 := by
  unfold gap
  split <;> split <;> omega

theorem gap_succ_of_ne (h : pc ≠ k) : gap (k + 1) n pc = gap k n pc := by
  unfold gap
  split <;> split <;> omega

theorem closeGap_gap (k n pc : Nat) : closeGap k n (gap k n pc) = pc := by
  unfold closeGap gap
  split <;> omega

theorem gap_closeGap (h : pc < k ∨ k + n ≤ pc) : gap k n (closeGap k n pc) = pc := by
  unfold closeGap gap
  split <;> omega

theorem closeGap_succ_of_inside (h : k ≤ pc) (h' : pc < k + n) :
    closeGap k n (pc + 1) = closeGap k n pc := by
  unfold closeGap
  omega

theorem closeGap_succ_of_outside (h : pc < k ∨ k + n ≤ pc) :
    closeGap k n (pc + 1) = closeGap k n pc + 1 := by
  unfold closeGap
  omega

theorem displace_natCast (k n pc : Nat) : displace k n pc = gap k n pc := by
  unfold displace gap
  split <;> split <;> omega

theorem displace_displace (k n n' : Nat) (position : Int) :
    displace (k + n) (n' - n) (displace k n position) = displace k n' position := by
  unfold displace
  split <;> split <;> omega

end

namespace Program

variable {a b u : List UInt8} {pc : Nat}

theorem instruction?_gap (a u b : List UInt8) (pc : Nat) :
    (ofBytes (a ++ u ++ b)).instruction? (gap a.length u.length pc) =
      (ofBytes (a ++ b)).instruction? pc := by
  rw [instruction?_eq, instruction?_eq, toList_ofBytes, toList_ofBytes, List.append_assoc]
  rcases Nat.lt_or_ge pc a.length with hlt | hle
  · rw [gap_of_lt hlt, List.getElem?_append_left hlt, List.getElem?_append_left hlt]
  · rw [gap_of_le hle, List.getElem?_append_right (by omega), List.getElem?_append_right (by omega),
      List.getElem?_append_right hle]
    congr 2
    omega

/-- No bracket stands inside a block of arithmetic. -/
theorem outside_of_bracket (hu : Arithmetic u) {i : Instruction} (hi : i = .opening ∨ i = .closing)
    (h : (ofBytes (a ++ u ++ b)).instruction? pc = some i) :
    pc < a.length ∨ a.length + u.length ≤ pc := by
  by_contra hinside
  have hlt : pc - a.length < u.length := by omega
  have hbyte : (a ++ u ++ b)[pc]? = u[pc - a.length]? := by
    rw [List.append_assoc, List.getElem?_append_right (by omega), List.getElem?_append_left hlt]
  rw [instruction?_eq_some_iff, toList_ofBytes, hbyte] at h
  have hmem : i.toByte ∈ u := List.mem_of_getElem? h
  rcases hi with rfl | rfl <;> exact absurd (hu _ hmem) (by decide)

end Program

/-- The brackets around a block of arithmetic are those of the program without it. -/
theorem Bracket.projection_closeGap {u : List UInt8} (hu : Arithmetic u) (a b : List UInt8) :
    Projection (closeGap a.length u.length) (.ofBytes (a ++ u ++ b)) (.ofBytes (a ++ b)) := by
  have hout : ∀ {pc}, pc < a.length ∨ a.length + u.length ≤ pc →
      (Program.ofBytes (a ++ b)).instruction? (closeGap a.length u.length pc) =
        (Program.ofBytes (a ++ u ++ b)).instruction? pc := by
    intro pc hpc
    rw [← Program.instruction?_gap a u b, gap_closeGap hpc]
  refine ⟨by simp [closeGap], ?_, ?_, ?_⟩
  · intro pc i hi hbracket
    have hpc := Program.outside_of_bracket hu hbracket hi
    exact ⟨(hout hpc).trans hi, closeGap_succ_of_outside hpc⟩
  · intro pc _ ho hc
    by_cases hpc : pc < a.length ∨ a.length + u.length ≤ pc
    · refine .inr ⟨closeGap_succ_of_outside hpc, ?_⟩
      rw [hout hpc]
      exact ⟨ho, hc⟩
    · exact .inl (closeGap_succ_of_inside (by omega) (by omega))
  · intro pc hpc
    simp only [Program.size_ofBytes, List.length_append, closeGap] at hpc ⊢
    omega

namespace Program

variable {u : List UInt8}

/-- What stands in a program stands in the program with a block put into it. A machine that
comes to the place of the block comes to its first octet. -/
theorem sameAt_gap (hu : Arithmetic u) (a b : List UInt8) (pc : Nat) :
    SameAt (gap a.length u.length) (gap (a.length + 1) u.length) (ofBytes (a ++ b))
      (ofBytes (a ++ u ++ b)) pc := by
  have hprojection := projection_closeGap hu a b
  -- What a scan finds is a bracket, and it stands outside the block.
  have hfound : ∀ {found : Option Nat} {i}, i = .opening ∨ i = .closing →
      (∀ j, found = some j → (ofBytes (a ++ u ++ b)).instruction? j = some i) →
      (found.map (closeGap a.length u.length)).map (gap a.length u.length) = found := by
    intro found i hi hj
    cases found with
    | none => rfl
    | some j => exact congrArg some (gap_closeGap (outside_of_bracket hu hi (hj j rfl)))
  refine ⟨?_, ?_, fun _ => instruction?_gap a u b pc, fun _ _ => gap_succ_succ _ _ _, ?_, ?_⟩
  · intro hpc
    simp only [size_ofBytes, List.length_append, gap] at hpc ⊢
    split <;> omega
  · intro hpc
    simp only [size_ofBytes, List.length_append, gap] at hpc ⊢
    split <;> omega
  · intro hi
    have hi' := (instruction?_gap a u b pc).trans hi
    have hscan := hprojection.scanForward_eq hi'
    rw [closeGap_gap] at hscan
    rw [hscan]
    refine (hfound (.inr rfl) fun j hj => ?_).symm
    exact ((scanForward_eq_some_iff hi').mp hj).closing
  · intro hi
    have hi' := (instruction?_gap a u b pc).trans hi
    have hscan := hprojection.scanBackward_eq hi'
    rw [closeGap_gap] at hscan
    rw [hscan]
    refine (hfound (.inl rfl) fun j hj => ?_).symm
    exact ((scanBackward_eq_some_iff hi').mp hj).opening

end Program

namespace Machine

variable {w : Nat}

/-- Two machines at the same place of two programs that have blocks of `n` and of `n'` octets
in front of what else stands at `k`. They may stand behind or in front of their blocks. -/
inductive Paired (k n n' : Nat) : Machine w → Machine w → Prop
  | behind (machine : Machine w) :
      Paired k n n' (machine.relocate (gap k n)) (machine.relocate (gap k n'))
  | before (machine : Machine w) :
      Paired k n n' (machine.relocate (gap (k + 1) n)) (machine.relocate (gap (k + 1) n'))

theorem paired_initial (k n n' : Nat) (tape : Tape w) :
    Paired k n n' (initial tape) (initial tape) := by
  have hstart : ∀ n, (initial tape).relocate (gap (k + 1) n) = initial tape :=
    fun n => congrArg (fun pc => Machine.mk pc _) (gap_of_lt (Nat.succ_pos k))
  have hbefore : Paired k n n' _ _ := .before (initial tape)
  rwa [hstart, hstart] at hbefore

section
variable {a b u u' : List UInt8}

/-- Away from the blocks, or behind them, the two machines take matching steps. -/
theorem step_matches_of_gap (hu : Arithmetic u) (hu' : Arithmetic u') (machine : Machine w) :
    ((machine.relocate (gap a.length u.length)).step (.ofBytes (a ++ u ++ b))
        (.scanning (.ofBytes (a ++ u ++ b)))).Matches (Paired a.length u.length u'.length)
      (Verdict.move (displace (a.length + u.length) (u'.length - u.length)))
      ((machine.relocate (gap a.length u'.length)).step (.ofBytes (a ++ u' ++ b))
        (.scanning (.ofBytes (a ++ u' ++ b)))) := by
  rw [step_relocate (Program.sameAt_gap hu a b _) (displace_natCast _ _ _),
    step_relocate (Program.sameAt_gap hu' a b _) (displace_natCast _ _ _)]
  exact Action.matches_relocate (displace_displace _ _ _) .behind .before _

/-- A machine in front of a block goes through it and has its sum added. -/
theorem advances_of_arithmetic (hu : Arithmetic u) (tape : Tape w) :
    (⟨a.length, tape⟩ : Machine w).Advances (.ofBytes (a ++ u ++ b))
      (.scanning (.ofBytes (a ++ u ++ b))) u.length
      ((⟨a.length, tape.modify (· + BitVec.ofInt w (net u))⟩ : Machine w).relocate
        (gap a.length u.length)) := by
  have hholds : (Program.ofBytes (a ++ u ++ b)).Holds a.length u := by
    unfold Program.Holds
    rw [Program.toList_ofBytes, List.append_assoc, List.drop_left]
    exact List.prefix_append u b
  rw [relocate, gap_of_le (Nat.le_refl _)]
  exact advances_of_obeyAll _ hholds (Tape.obeyAll_arithmetic hu tape)

/-- Wherever two such machines are, they meet outside the blocks with the same tape. -/
theorem Paired.meet (hu : Arithmetic u) (hu' : Arithmetic u')
    (hnet : net u ≡ net u' [ZMOD 2 ^ w]) {machine machine' : Machine w}
    (h : Paired a.length u.length u'.length machine machine') :
    Meet (Paired a.length u.length u'.length)
      (Verdict.move (displace (a.length + u.length) (u'.length - u.length)))
      (.ofBytes (a ++ u ++ b)) (.ofBytes (a ++ u' ++ b)) (.scanning (.ofBytes (a ++ u ++ b)))
      (.scanning (.ofBytes (a ++ u' ++ b))) machine machine' := by
  cases h with
  | behind machine => exact ⟨0, 0, _, _, rfl, rfl, step_matches_of_gap hu hu' machine⟩
  | before machine =>
      by_cases hpc : machine.pc = a.length
      · have hfront : ∀ n, machine.relocate (gap (a.length + 1) n) = ⟨a.length, machine.tape⟩ := by
          intro n
          rw [relocate, hpc, gap_of_lt (Nat.lt_succ_self _)]
        have hthrough' := advances_of_arithmetic (a := a) (b := b) hu' machine.tape
        rw [← ofInt_eq_iff_modEq.mpr hnet] at hthrough'
        rw [hfront, hfront]
        exact ⟨_, _, _, _, advances_of_arithmetic hu machine.tape, hthrough',
          step_matches_of_gap hu hu' _⟩
      · have haway : ∀ n, machine.relocate (gap (a.length + 1) n) =
            machine.relocate (gap a.length n) := by
          intro n
          rw [relocate, relocate, gap_succ_of_ne hpc]
        rw [haway, haway]
        exact ⟨0, 0, _, _, rfl, rfl, step_matches_of_gap hu hu' machine⟩

end

end Machine

/-- Two programs that do the same with their streams. A position that the first one gives for
a fault is carried by the map to the position that the second one gives. -/
structure Interchangeable {ε σ : Type} (host : Host) (streams : Streams (Effect ε σ))
    (settings : Settings) (world : σ) (g : Int → Int) (p p' : Program) : Prop where
  /-- However far the first one is followed, the second one comes equally far. -/
  forth : ∀ n, ∃ n', Relocated streams g
    ((interpret host (Recorded.streams streams) settings p' n').runFrom (.start world))
    ((interpret host (Recorded.streams streams) settings p n).runFrom (.start world))
  /-- However far the second one is followed, the first one comes equally far. -/
  back : ∀ n', ∃ n, Relocated streams g
    ((interpret host (Recorded.streams streams) settings p' n').runFrom (.start world))
    ((interpret host (Recorded.streams streams) settings p n).runFrom (.start world))
  /-- Neither runs for ever unless the other one does. -/
  endless :
    (∀ n, ((interpret host (Recorded.streams streams) settings p n).runFrom (.start world)).1 =
      .ok (.ok none)) ↔
    ∀ n, ((interpret host (Recorded.streams streams) settings p' n).runFrom (.start world)).1 =
      .ok (.ok none)

section
variable {ε σ : Type} {streams : Streams (Effect ε σ)} {settings : Settings} {world : σ}

theorem Interchangeable.of_relocated {g : Int → Int} {p p' : Program}
    (hforth : ∀ n, ∃ n', Relocated streams g
      ((interpret host (Recorded.streams streams) settings p' n').runFrom (.start world))
      ((interpret host (Recorded.streams streams) settings p n).runFrom (.start world)))
    (hback : ∀ n', ∃ n, Relocated streams g
      ((interpret host (Recorded.streams streams) settings p' n').runFrom (.start world))
      ((interpret host (Recorded.streams streams) settings p n).runFrom (.start world))) :
    Interchangeable host streams settings world g p p' := by
  refine ⟨hforth, hback, ?_, ?_⟩
  · intro hendless n'
    obtain ⟨n, h⟩ := hback n'
    exact h.running.mpr (hendless n)
  · intro hendless n
    obtain ⟨n', h⟩ := hforth n
    exact h.running.mp (hendless n')

/-- On streams that never fail, the second program returns what the first one returns, with a
fault at the position that the map gives. -/
theorem Interchangeable.exists_outcome {g : Int → Int} {p p' : Program}
    (h : Interchangeable host streams settings world g p p') (hstreams : streams.NeverFails)
    (n : Nat) :
    ∃ n', ((interpret host (Recorded.streams streams) settings p' n').runFrom (.start world)).1 =
      ((interpret host (Recorded.streams streams) settings p n).runFrom (.start world)).1.map
        (Except.map (Option.map (Verdict.move g))) := by
  obtain ⟨n', hrelocated⟩ := h.forth n
  exact ⟨n', hrelocated.outcome hstreams.reportsAlike⟩

/-- Programs whose machines always meet again do the same. -/
theorem Interchangeable.of_meet {options : Options}
    (hoptions : settings.prepare host = .ok options)
    {R : Machine options.cellWidth.bits → Machine options.cellWidth.bits → Prop} {g : Int → Int}
    {p p' : Program}
    (hmeet : ∀ machine machine', R machine machine' →
      Machine.Meet R (Verdict.move g) p p' (.scanning p) (.scanning p') machine machine')
    (hstart : R (Machine.initial options.tape) (Machine.initial options.tape)) :
    Interchangeable host streams settings world g p p' := by
  refine .of_relocated (fun n => ?_) (fun n' => ?_)
  · obtain ⟨n', haccord⟩ := Execution.exists_inAccord_right (Recorded.streams streams) hmeet
      hstart n (.start world)
    rw [← Execution.runFor_matcher _ p options.brackets,
      ← Execution.runFor_matcher _ p' options.brackets] at haccord
    exact ⟨n', .of_lockstep hoptions haccord⟩
  · obtain ⟨n, haccord⟩ := Execution.exists_inAccord_left (Recorded.streams streams) hmeet
      hstart n' (.start world)
    rw [← Execution.runFor_matcher _ p options.brackets,
      ← Execution.runFor_matcher _ p' options.brackets] at haccord
    exact ⟨n, .of_lockstep hoptions haccord⟩

variable {u u' : List UInt8}

variable (streams world) in
/-- One block of arithmetic can stand for another one with a congruent sum. -/
theorem Interchangeable.of_arithmetic (a b : List UInt8) (hu : Arithmetic u)
    (hu' : Arithmetic u')
    (hnet : ∀ options, settings.prepare host = .ok options →
      net u ≡ net u' [ZMOD 2 ^ options.cellWidth.bits]) :
    Interchangeable host streams settings world
      (displace (a.length + u.length) (u'.length - u.length)) (.ofBytes (a ++ u ++ b))
      (.ofBytes (a ++ u' ++ b)) := by
  cases hoptions : settings.prepare host with
  | error error =>
      refine .of_relocated (fun n => ⟨n, ?_⟩) (fun n => ⟨n, ?_⟩)
      · exact .of_error hoptions _ _ _ _ _
      · exact .of_error hoptions _ _ _ _ _
  | ok options =>
      have hmeet := fun machine machine' =>
        @Machine.Paired.meet _ a b u u' hu hu' (hnet options hoptions) machine machine'
      exact .of_meet hoptions hmeet (Machine.paired_initial _ _ _ _)

end

end Brainfuck
