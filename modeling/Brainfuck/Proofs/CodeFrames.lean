import Brainfuck.CodeFrame
import Brainfuck.Proofs.Lines
import Brainfuck.Proofs.Reachability

/-!
# Code frames of faults

A fault that an execution returns names an instruction of the program, and the frame of the
fault shows the line of that instruction as splitting the program at its newlines gives it. An
instruction is neither a newline nor a carriage return, so it stands in what is shown of its
line, at the column that the location of the fault says.

The frame is a text of three lines without exception, unless there is no text of that length
or the line is too long to be decoded.
-/
namespace Brainfuck

variable {host : Host}

/-- The instruction that causes a fault. -/
def Fault.instruction : Fault → Instruction
  | .outOfBounds _ .right => .right
  | .outOfBounds _ .left => .left
  | .missingClosing _ => .opening
  | .missingOpening _ => .closing

theorem Fault.Justified.instruction {w tapeLength : Nat} {p : Program} {machine : Machine w}
    {fault : Fault} (h : fault.Justified p tapeLength machine) :
    p.instruction? machine.pc = some fault.instruction := by
  cases fault with
  | outOfBounds position direction =>
      cases direction with
      | left => exact h.1
      | right => exact h.1
  | missingClosing position => exact h.1
  | missingOpening position => exact h.1

section
variable {ε σ : Type} {streams : Streams (Effect ε σ)} {settings : Settings} {p : Program}
variable {n : Nat} {s s' : σ}

/-- An execution that does not start gives no verdict. -/
theorem exists_prepare_of_yields {verdict : Option Verdict}
    (h : (interpret host streams settings p n).runFrom s = (.ok (.ok verdict), s')) :
    ∃ options, settings.prepare host = .ok options := by
  unfold interpret at h
  cases hprepare : settings.prepare host with
  | ok options => exact ⟨options, rfl⟩
  | error error =>
      rw [hprepare] at h
      cases h

/-- A fault that an execution returns names the instruction that caused it. -/
theorem exists_instruction_of_faulted {options : Options} {fault : Fault}
    (hoptions : settings.prepare host = .ok options)
    (h : (interpret host streams settings p n).runFrom s =
      (.ok (.ok (some (.faulted fault))), s')) :
    ∃ pc : Nat, fault.position = pc ∧ p.instruction? pc = some fault.instruction := by
  obtain ⟨c, hhalts, _⟩ := (Execution.interpret_yields_iff hoptions).mp h
  obtain ⟨hstep, k, _, hreach⟩ := hhalts.exists_reaches
  rw [Machine.step_matcher] at hstep
  obtain ⟨hposition, _, hjustified⟩ := (hreach.inBounds hoptions).justified hstep
  exact ⟨c.machine.pc, hposition, hjustified.instruction⟩

end

namespace CodeFrame

variable {p : Program} {fault : Fault} {pc : Nat}

theorem chop_cases (last : UInt8) (bytes : List UInt8) :
    bytes = chop last bytes ++ [last] ∨ bytes = chop last bytes ∧ bytes.getLast? ≠ some last := by
  unfold chop
  by_cases h : bytes.getLast? = some last
  · rw [if_pos h]
    obtain ⟨front, rfl⟩ := List.getLast?_eq_some_iff.mp h
    rw [List.dropLast_concat]
    exact .inl rfl
  · rw [if_neg h]
    exact .inr ⟨rfl, h⟩

theorem mem_of_mem_chop {last b : UInt8} {bytes : List UInt8} (h : b ∈ chop last bytes) :
    b ∈ bytes := by
  unfold chop at h
  split at h
  · exact List.dropLast_subset bytes h
  · exact h

/-- An octet of another kind is not chopped off. -/
theorem getElem?_chop {last b : UInt8} {bytes : List UInt8} {i : Nat} (h : bytes[i]? = some b)
    (hb : b ≠ last) : (chop last bytes)[i]? = some b := by
  rcases chop_cases last bytes with hchopped | ⟨hwhole, _⟩
  · rw [hchopped, List.getElem?_append] at h
    split at h
    · exact h
    · exact (hb (List.mem_singleton.mp (List.mem_of_getElem? h))).elim
  · rwa [← hwhole]

/-- A line is shown without the newline that ends it. -/
theorem chop_newline {line rest : List UInt8} (hline : newline ∉ line)
    (hrest : rest = [] ∨ ∃ later, rest = newline :: later) :
    chop newline (line ++ rest.take 1) = line := by
  unfold chop
  rcases hrest with rfl | ⟨later, rfl⟩
  · have hlast : line.getLast? ≠ some newline := fun h => hline (List.mem_of_getLast? h)
    rw [List.take_nil, List.append_nil, if_neg hlast]
  · have htake : (newline :: later).take 1 = [newline] := rfl
    rw [htake, if_pos List.getLast?_concat, List.dropLast_concat]

theorem bind_eq_ok_iff {ε α β : Type} {x : Except ε α} {f : α → Except ε β} {b : β} :
    (x >>= f) = .ok b ↔ ∃ a, x = .ok a ∧ f a = .ok b := by
  cases x <;> simp [bind, Except.bind]

theorem renderLine_eq_ok_iff {name text : String} :
    renderLine p fault name = .ok text ↔ ∃ frame, render p fault name = .ok frame ∧
      Utf16.length (frame ++ "\n").toList ≤ Utf16.maxLength ∧ text = frame ++ "\n" := by
  unfold renderLine
  simp only [bind_eq_ok_iff, fit_eq_ok_iff]

/-- The frame of a fault at a line and a column, both counted from zero. -/
def frameText (name : String) (fault : Fault) (line column : Nat) (shown : String) : String :=
  s!"{name}:{line + 1}:{column + 1} error: {fault.describe}\n" ++
    s!"{line + 1} | {shown}\n" ++
    s!"{spaces (toString (line + 1)).length} | {spaces column}^"

/-- The lines of a frame, joined. -/
theorem intercalate_lines (name : String) (fault : Fault) (line column : Nat) (shown : String) :
    "\n".intercalate [
      s!"{name}:{toString (line + 1)}:{toString (column + 1)} error: {fault.describe}",
      s!"{toString (line + 1)} | {shown}",
      s!"{spaces (toString (line + 1)).length} | {spaces column}^"] =
    frameText name fault line column shown := by
  simp only [String.intercalate_cons_cons, String.intercalate_singleton, frameText, toString,
    String.append_assoc]

theorem length_intercalate_lines (first second third : String) :
    Utf16.length ("\n".intercalate [first, second, third]).toList =
      Utf16.length first.toList + Utf16.length second.toList + Utf16.length third.toList + 2 := by
  have hnewline : Utf16.length "\n".toList = 1 := rfl
  simp only [String.intercalate_cons_cons, String.intercalate_singleton, String.toList_append,
    Utf16.length_append, hnewline]
  omega

theorem length_spaces (count : Nat) : Utf16.length (spaces count).toList = count := by
  have hspace : Utf16.units ' ' = 1 := rfl
  rw [spaces, String.toList_ofList, Utf16.length_replicate, hspace, Nat.mul_one]

/-- The caret's line is longer than the indent. -/
theorem le_length_caret (width column : Nat) :
    column ≤ Utf16.length (s!"{spaces width} | {spaces column}^").toList := by
  change column ≤ Utf16.length (spaces width ++ " | " ++ spaces column ++ "^").toList
  simp only [String.toList_append, Utf16.length_append, length_spaces]
  omega

/-- A frame has a text if its line can be decoded and the whole of it is a text. -/
theorem render_eq_ok_iff (hposition : fault.position = pc) (hpc : pc < p.size)
    (hsize : p.size ≤ Binary64.maxSafeInteger) {name : String} {line column : Nat}
    (hline : (LineIndex.ofProgram p).lineOf pc = line)
    (hcolumn : pc - (LineIndex.ofProgram p).start line = column) {octets : List UInt8}
    (hoctets : lineOctets p (LineIndex.ofProgram p) line = octets) {frame : String} :
    render p fault name = .ok frame ↔
      (octets.length ≤ Utf16.maxLength ∧
        Utf16.length (frameText name fault line column (Utf8.decode octets)).toList ≤
          Utf16.maxLength) ∧
      frame = frameText name fault line column (Utf8.decode octets) := by
  have hlocate := LineIndex.locate_of_lt hpc hsize
  rw [hline, hcolumn] at hlocate
  have hindent : Binary64.roundInt ((column : Int) + 1 - 1) = column := by
    rw [Int.add_sub_cancel, Binary64.roundInt_of_natAbs_le (by omega)]
  have hnumber : column + 1 ≤ Binary64.maxSafeInteger := by omega
  have htext : integerText ((column : Int) + 1) = toString (column + 1) :=
    integerText_natCast hnumber
  have hjoin := intercalate_lines name fault line column (Utf8.decode octets)
  unfold render
  dsimp only
  rw [hposition, hlocate]
  dsimp only
  rw [hindent, htext, Nat.add_sub_cancel, hoctets]
  simp only [bind_eq_ok_iff, fit_eq_ok_iff, decode_eq_ok_iff, indentation_natCast_eq_ok_iff]
  constructor
  · rintro ⟨_, ⟨_, rfl⟩, _, ⟨hdecoded, rfl⟩, _, ⟨_, rfl⟩, _, ⟨_, rfl⟩, _, ⟨_, rfl⟩, hfits, rfl⟩
    rw [← hjoin]
    exact ⟨⟨hdecoded, hfits⟩, rfl⟩
  · rintro ⟨⟨hdecoded, hfits⟩, rfl⟩
    have hparts := hfits
    rw [← hjoin, length_intercalate_lines] at hparts
    have hcaret := le_length_caret (toString (line + 1)).length column
    exact ⟨_, ⟨by omega, rfl⟩, _, ⟨hdecoded, rfl⟩, _, ⟨by omega, rfl⟩, _, ⟨by omega, rfl⟩,
      _, ⟨by omega, rfl⟩, hjoin ▸ hfits, hjoin.symm⟩

/-- An instruction is found at its column in what is shown of its line. -/
theorem getElem?_shown {front line rest : List UInt8} {i : Instruction}
    (hcut : CutAt p pc front line rest) (hinstruction : p.instruction? pc = some i) :
    (chop 13 line)[pc - front.length]? = some i.toByte := by
  apply getElem?_chop
  · rw [hcut.getElem?]
    exact Program.instruction?_eq_some_iff.mp hinstruction
  · cases i <;> decide

/-- The frame of an instruction shows the line at which the instruction cuts the program. -/
theorem exists_frame (hposition : fault.position = pc)
    (hinstruction : p.instruction? pc = some fault.instruction)
    (hsize : p.size ≤ Binary64.maxSafeInteger) :
    ∃ front line rest column, CutAt p pc front line rest ∧ pc = front.length + column ∧
      p.locate fault.position = ⟨front.count newline + 1, (column : Int) + 1⟩ ∧
      (chop 13 line)[column]? = some fault.instruction.toByte ∧
      ∀ name frame, render p fault name = .ok frame ↔
        ((chop 13 line).length ≤ Utf16.maxLength ∧
          Utf16.length (frameText name fault (front.count newline) column
            (Utf8.decode (chop 13 line))).toList ≤ Utf16.maxLength) ∧
        frame = frameText name fault (front.count newline) column
          (Utf8.decode (chop 13 line)) := by
  have hpc := Program.lt_size_of_instruction?_eq_some hinstruction
  have hbyte : p.toList[pc]? ≠ some newline := by
    rw [Program.instruction?_eq_some_iff.mp hinstruction]
    cases fault.instruction <;> decide
  obtain ⟨front, line, rest, hcut, hnumber, hstart, hslice⟩ := LineIndex.exists_cutAt hpc hbyte
  have hlocate := LineIndex.locate_of_lt hpc hsize
  rw [hnumber, hstart] at hlocate
  have hoctets : lineOctets p (LineIndex.ofProgram p) (front.count newline) = chop 13 line := by
    unfold lineOctets
    dsimp only
    rw [hstart, hslice, chop_newline hcut.noNewline hcut.closes]
  refine ⟨front, line, rest, pc - front.length, hcut, ?_, ?_, getElem?_shown hcut hinstruction, ?_⟩
  · have hle := hcut.le
    omega
  · rw [hposition]
    exact hlocate
  · intro name frame
    exact render_eq_ok_iff hposition hpc hsize hnumber (by rw [hstart]) hoctets

end CodeFrame

/-- What a computation returns under a condition, it returns if the condition holds and only
then. -/
theorem FrameError.exists_eq_ite {α : Type} {x : Except FrameError α} {a : α} {holds : Prop}
    [Decidable holds] (h : ∀ b, x = .ok b ↔ holds ∧ b = a) :
    ∃ error, x = if holds then .ok a else .error error := by
  cases x with
  | ok b =>
      obtain ⟨hholds, rfl⟩ := (h b).mp rfl
      exact ⟨.tooLong, (if_pos hholds).symm⟩
  | error error =>
      have hfails : ¬ holds := fun hholds => nomatch (h a).mpr ⟨hholds, rfl⟩
      exact ⟨error, (if_neg hfails).symm⟩

end Brainfuck
