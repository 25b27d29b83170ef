import Brainfuck.Proofs.ExitCodes
import Brainfuck.Proofs.IntegerTape
import Brainfuck.Proofs.Structured

/-!
# The copy program

A read, and a loop that writes what has been read and reads again. The loop ends at a zero,
and the end of input is read as one, so the program prints its input up to the first zero byte
and takes that byte as well. A byte survives the way through a cell of any width: it is stored
as a number that the cell holds, and its low eight bits are put out.

The induction is over the unread input. In front of a test the machine stands at either
bracket of the loop, so the position of the read before it varies.
-/
namespace Brainfuck

open Brainfuck.Bracket Brainfuck.Execution

variable {host : Host}

/-- The program that copies its input. -/
def Program.copy : Program := .ofText ",[.,]"

namespace Tape

variable {w : Nat} {t : Tape w}

theorem current?_store (ht : t.current?.isSome = true) (z : Int) :
    (t.store z).current? = some (BitVec.ofInt w z) := by
  obtain ⟨c, hc⟩ := Option.isSome_iff_exists.mp ht
  rw [store, current?_modify, hc]
  rfl

/-- A byte that has been stored is put out again. -/
theorem outputByte_store (hw : 8 ≤ w) (ht : t.current?.isSome = true) (b : UInt8) :
    (t.store b.toNat).outputByte = b := by
  have hlow := lowByte_ofInt hw b.toNat
  have hlt := b.toNat_lt
  rw [outputByte, current?_store ht]
  apply UInt8.toNat_inj.mp
  dsimp only
  omega

/-- Only a zero byte makes a zero cell. -/
theorem isZero_store (hw : 8 ≤ w) (ht : t.current?.isSome = true) (b : UInt8) :
    (t.store b.toNat).isZero = decide (b = 0) := by
  rw [isZero, current?_store ht]
  by_cases hb : b = 0
  · subst hb
    simp
  · have hne : BitVec.ofInt w b.toNat ≠ 0 := by
      intro hzero
      have hbyte := outputByte_store hw ht b
      rw [outputByte, current?_store ht, hzero] at hbyte
      exact hb (by simpa using hbyte.symm)
    simpa [hb] using hne

end Tape

namespace Execution

variable {w n pc : Nat} {p : Program} {t : Tape w}

/-- A read takes the next byte, and a zero at the end of input. -/
theorem runFor_read (hread : p.instruction? pc = some .input) (unread : List UInt8)
    (output errors : OutputBuffer) :
    runFor Memory.streams p (.scanning p) (n + 1) ⟨pc, t⟩ ⟨⟨unread⟩, output, errors⟩ =
      runFor Memory.streams p (.scanning p) n ⟨pc + 1, t.store (unread.headD 0).toNat⟩
        ⟨⟨unread.tail⟩, output, errors⟩ := by
  rw [runFor, Machine.Step.step_eq (.input hread)]
  cases unread <;> rfl

theorem runFor_write (hwrite : p.instruction? pc = some .output) (memory : Memory) :
    runFor Memory.streams p (.scanning p) (n + 1) ⟨pc, t⟩ memory =
      runFor Memory.streams p (.scanning p) n ⟨pc + 1, t⟩
        { memory with output := memory.output.write [t.outputByte] } := by
  rw [runFor, Machine.Step.step_eq (.output hwrite)]
  rfl

end Execution

/-- The bytes in front of the first zero byte, all of them if there is none. -/
def beforeZero (bytes : List UInt8) : List UInt8 := bytes.takeWhile (· != 0)

/-- The bytes behind the first zero byte. -/
def behindZero (bytes : List UInt8) : List UInt8 := (bytes.dropWhile (· != 0)).tail

theorem splits_at_zero {bytes : List UInt8} (h : 0 ∉ bytes) (rest : List UInt8) :
    beforeZero (bytes ++ 0 :: rest) = bytes ∧ behindZero (bytes ++ 0 :: rest) = rest := by
  have hall : ∀ b ∈ bytes, (b != 0) = true := by
    intro b hb
    exact bne_iff_ne.mpr fun hzero => h (hzero ▸ hb)
  constructor
  · rw [beforeZero, List.takeWhile_append_of_pos hall]
    exact List.append_nil bytes
  · rw [behindZero, List.dropWhile_append_of_pos hall]
    rfl

namespace Program

theorem copy_partners : Partners copy 1 4 := ⟨by decide, rfl, rfl, by decide⟩

section
variable {w n pc : Nat} {t : Tape w}

/-- A zero leads out of the loop to the end of the program. -/
theorem runFor_copy_of_zero (hw : 8 ≤ w) (ht : t.current?.isSome = true)
    (hread : copy.instruction? pc = some .input) (hguards : Guards w copy 1 4 (pc + 1))
    {unread : List UInt8} (hzero : unread.headD 0 = 0) (output errors : OutputBuffer)
    (hn : 3 ≤ n) :
    ∃ final, runFor Memory.streams copy (.scanning copy) n ⟨pc, t⟩ ⟨⟨unread⟩, output, errors⟩ =
      (.stopped .completed final, ⟨⟨unread.tail⟩, output, errors⟩) := by
  obtain ⟨n, rfl⟩ := Nat.exists_eq_add_of_le' hn
  have hleave := hguards.leave _ ((Tape.isZero_store hw ht 0).trans (decide_eq_true rfl))
  have hstop : (⟨5, t.store (0 : UInt8).toNat⟩ : Machine w).step copy (.scanning copy) = _ :=
    Machine.step_of_size_le (Nat.le_refl 5)
  rw [runFor_read hread, hzero, runFor, hleave]
  dsimp only
  rw [runFor, hstop]
  exact ⟨_, rfl⟩

/-- The loop prints the unread input up to the first zero byte. -/
theorem runFor_copy (hw : 8 ≤ w) (ht : t.current?.isSome = true)
    (hread : copy.instruction? pc = some .input) (hguards : Guards w copy 1 4 (pc + 1))
    (unread : List UInt8) (output errors : OutputBuffer)
    (hn : 3 * (beforeZero unread).length + 3 ≤ n) :
    ∃ final, runFor Memory.streams copy (.scanning copy) n ⟨pc, t⟩ ⟨⟨unread⟩, output, errors⟩ =
      (.stopped .completed final,
        ⟨⟨behindZero unread⟩, output.write (beforeZero unread), errors⟩) := by
  induction unread generalizing n pc t output with
  | nil =>
      rw [beforeZero, List.takeWhile_nil, OutputBuffer.write_nil]
      exact runFor_copy_of_zero hw ht hread hguards rfl output errors (Nat.le_of_add_left_le hn)
  | cons b rest ih =>
      by_cases hb : b = 0
      · subst hb
        have hbefore : beforeZero (0 :: rest) = [] := rfl
        rw [hbefore, OutputBuffer.write_nil]
        exact runFor_copy_of_zero hw ht hread hguards rfl output errors
          (Nat.le_of_add_left_le hn)
      · have hbefore : beforeZero (b :: rest) = b :: beforeZero rest := by
          simp [beforeZero, hb]
        have hbehind : behindZero (b :: rest) = behindZero rest := by
          simp [behindZero, hb]
        rw [hbefore, List.length_cons] at hn
        obtain ⟨n, rfl⟩ := Nat.exists_eq_add_of_le' (m := 3) (by omega : 3 ≤ n)
        have hn' : 3 * (beforeZero rest).length + 3 ≤ n := by omega
        have hread' : copy.instruction? 3 = some .input := rfl
        have henter := hguards.enter _ ((Tape.isZero_store hw ht b).trans (decide_eq_false hb))
        have hcell : (t.store b.toNat).current?.isSome = true := by
          rw [Tape.current?_store ht]
          rfl
        obtain ⟨final, hrest⟩ :=
          ih hcell hread' copy_partners.guards_closing (output.write [b]) hn'
        refine ⟨final, ?_⟩
        rw [runFor_read hread, List.headD_cons, runFor, henter]
        dsimp only
        rw [runFor_write rfl, Tape.outputByte_store hw ht, hbefore, hbehind]
        rw [OutputBuffer.write_write] at hrest
        exact hrest

end

/-- Three steps for each byte that is printed, and three for the zero that ends the loop. -/
theorem interpretInMemory_copy {settings : Settings} {options : Options}
    (hoptions : settings.prepare host = .ok options) (input : List UInt8) {n : Nat}
    (hn : 3 * (beforeZero input).length + 3 ≤ n) :
    (interpretInMemory host settings copy n).run (.ofInput input) =
      (.ok (some .completed),
        ⟨⟨behindZero input⟩, OutputBuffer.empty.write (beforeZero input), .empty⟩) := by
  have ht : (Tape.blank options.cellWidth.bits options.tapeLength).current?.isSome = true := by
    simpa [Tape.blank, Tape.current?] using Settings.tapeLength_pos hoptions
  have hread : copy.instruction? 0 = some .input := rfl
  obtain ⟨final, hrun⟩ := runFor_copy options.cellWidth.eight_le_bits ht hread
    copy_partners.guards_opening input .empty .empty hn
  rw [← runFor_matcher _ _ options.brackets] at hrun
  exact interpretInMemory_of_runFor copy n hoptions hrun

end Program

/-- A command whose program is the copy program succeeds and has nothing to report, whatever
its switches are. -/
theorem CommandLine.run_copy {files : FileAccess Id} {env : Environment}
    {arguments : List String} {command : Command} {options : Options} {loaded : LoadedProgram}
    (h : Executes files env arguments command loaded)
    (hoptions : command.settings.prepare host = .ok options) (hcopy : loaded.program = .copy)
    (input : List UInt8) {n : Nat} (hn : 3 * (beforeZero input).length + 3 ≤ n) :
    (run host Memory.streams files.lift env arguments n).run (.ofInput input) =
      (.ok (some .success),
        ⟨⟨behindZero input⟩, OutputBuffer.empty.write (beforeZero input), .ofText ""⟩) := by
  have hrun := Program.interpretInMemory_copy hoptions input hn
  rw [← hcopy] at hrun
  exact run_eq_ok_iff.mpr (.executed h hrun Command.diagnostics_completed)

/-- The copy program prints its input up to the first zero byte, under all settings that are
accepted and on every tape that the host makes: it completes, reports nothing, and leaves unread
what lies behind that byte. A process whose arguments ask for this program prints the same and
succeeds, over every system whose calls succeed, whatever the blocks are in which the input
arrives and the output is accepted. -/
theorem copy_program_copies (host : Host) (input : List UInt8) {budget : Nat}
    (hbudget : 3 * (beforeZero input).length + 3 ≤ budget) :
    (∀ settings options, Settings.prepare host settings = .ok options →
      ∃ memory, (interpretInMemory host settings .copy budget).run (.ofInput input) =
          (.ok (some .completed), memory) ∧
        memory.output.bytes = beforeZero input ∧ memory.errors.bytes = [] ∧
        memory.input.unread = behindZero input) ∧
    ∀ (files : FileAccess Id) (env : Environment) (arguments : List String) (command : Command)
      (options : Options) (loaded : LoadedProgram),
      CommandLine.Executes files env arguments command loaded →
      command.settings.prepare host = .ok options → loaded.program = .copy →
      runProcess host files env arguments input budget = ⟨some .success, beforeZero input⟩ ∧
      ∀ {ε τ : Type} {system : ConsoleSystem ε (StateM τ)}
        {At : τ → List UInt8 → List UInt8 → Prop} {s : τ} (outputIsTerminal : Bool),
        system.Serves At → At s input [] →
        ∃ console s' unread,
          Console.runFrom
            (CommandLine.run host (Console.streams system) files.lift env arguments budget)
            (.initial outputIsTerminal) s = ((.ok (.ok (some .success)), console), s') ∧
          At s' unread (beforeZero input) ∧ console.output.Idle ∧ console.errors.Idle := by
  constructor
  · intro settings options hoptions
    refine ⟨_, Program.interpretInMemory_copy hoptions input hbudget, ?_, rfl, rfl⟩
    rw [OutputBuffer.bytes_write, OutputBuffer.bytes_empty, List.nil_append]
  · intro files env arguments command options loaded hexecutes hoptions hcopy
    have hmain := CommandLine.run_copy hexecutes hoptions hcopy input hbudget
    have hprinted : (OutputBuffer.empty.write (beforeZero input)).bytes ++
        (OutputBuffer.ofText "").bytes = beforeZero input := by
      simp
    constructor
    · rw [Process.runProcess_eq hmain, hprinted]
    · intro ε τ system At s outputIsTerminal hserves hs
      have hprocess := Process.exists_run hserves hs outputIsTerminal hmain
      rwa [hprinted] at hprocess

/-- An input of more than one block, whose bytes are negative as cells of eight bits, with a
zero byte in its second block. -/
theorem copy_program_copies_across_blocks :
    let host := Host.upTo 120000
    let bytes := List.replicate 5000 (200 : UInt8)
    let input := bytes ++ [0, 7]
    let files := FileSystem.empty.access
    let arguments := ["--cell-width=8", "--tape-length", "1", "-e", ",[.,]"]
    BlockReader.blockSize < bytes.length ∧ beforeZero input = bytes ∧ behindZero input = [7] ∧
      (∃ memory, (interpretInMemory host { brackets := some "table" } .copy 15003).run
          (.ofInput input) = (.ok (some .completed), memory) ∧
        memory.output.bytes = bytes ∧ memory.errors.bytes = [] ∧ memory.input.unread = [7]) ∧
      runProcess host files (fun _ => none) arguments input 15003 = ⟨some .success, bytes⟩ ∧
      ∃ console terminal unread,
        Console.runFrom (CommandLine.run host (Console.streams Terminal.system) files.lift
          (fun _ => none) arguments 15003) (.initial true) (Terminal.ofInput input) =
            ((.ok (.ok (some .success)), console), terminal) ∧
        terminal.Shows unread bytes ∧ console.output.Idle ∧ console.errors.Idle := by
  intro host bytes input files arguments
  have hnonzero : 0 ∉ bytes := fun hzero => absurd (List.eq_of_mem_replicate hzero) (by decide)
  obtain ⟨hbefore, hbehind⟩ : beforeZero input = bytes ∧ behindZero input = [7] :=
    splits_at_zero hnonzero [7]
  have hbudget : 3 * (beforeZero input).length + 3 ≤ 15003 := by
    rw [hbefore, List.length_replicate]
  obtain ⟨hmemory, hprocess⟩ := copy_program_copies host input hbudget
  rw [hbefore, hbehind] at hmemory
  rw [hbefore] at hprocess
  obtain ⟨hreport, hserved⟩ := hprocess files (fun _ => none) arguments
    ⟨.literal ",[.,]", .ofValues (some 1) (some .bits8) none, false, false⟩ ⟨1, .bits8, .scan⟩ _
    ⟨rfl, rfl⟩ rfl rfl
  refine ⟨?_, hbefore, hbehind, hmemory _ ⟨30000, .bits32, .table⟩ rfl, hreport,
    hserved true Terminal.serves (Terminal.shows_ofInput input)⟩
  rw [List.length_replicate]
  decide

/-- On the longest tape that settings can ask for nothing is copied: the tape is not made,
however much memory there is, and no byte of the input is read. -/
theorem copy_program_without_tape :
    let host : Host := ⟨fun _ => true⟩
    let settings := Settings.empty.withTapeLength 9007199254740991
    settings.resolve = .ok ⟨9007199254740991, .bits32, .scan⟩ ∧ beforeZero [97, 98] = [97, 98] ∧
      (interpretInMemory host settings .copy 9).run (.ofInput [97, 98]) =
        (.error (.tape (.invalidLength 9007199254740991)), .ofInput [97, 98]) :=
  ⟨rfl, rfl, rfl⟩

end Brainfuck
