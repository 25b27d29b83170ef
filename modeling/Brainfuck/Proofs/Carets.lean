import Brainfuck.Proofs.CodeFrames
import Brainfuck.Proofs.Decoding
import Brainfuck.Proofs.Encoding

/-!
# Carets

Where the caret of a code frame stands, for programs that are text. The frame has three lines.
The second shows the line of the fault behind a gutter that holds its number, and the third has
the caret behind a gutter of the same width. The caret is indented by the octets that come
before the faulting instruction, while the instruction itself comes behind so many characters.
The two agree exactly if all of these characters are ASCII; otherwise the caret stands to the
right of the instruction.
-/
namespace Brainfuck

variable {host : Host}

/-- The character that writes an instruction. -/
def Instruction.toChar : Instruction → Char
  | .right => '>'
  | .left => '<'
  | .increment => '+'
  | .decrement => '-'
  | .output => '.'
  | .input => ','
  | .opening => '['
  | .closing => ']'

theorem Instruction.encodeChar_toChar (i : Instruction) :
    String.utf8EncodeChar i.toChar = [i.toByte] := by
  cases i <;> rfl

theorem encodeChar_newline : String.utf8EncodeChar '\n' = [newline] := rfl

/-- A line of a text is a text. -/
theorem CutAt.wellFormed {p : Program} {pc : Nat} {front line rest : List UInt8}
    (h : CutAt p pc front line rest) (htext : Utf8.WellFormed p.toList) :
    Utf8.WellFormed line := by
  rw [h.toList] at htext
  have hline : Utf8.WellFormed (line ++ rest) := by
    rcases h.opens with rfl | ⟨earlier, rfl⟩
    · exact htext
    · rw [List.append_assoc] at htext
      exact (htext.of_append_cons encodeChar_newline).2
  rcases h.closes with rfl | ⟨later, rfl⟩
  · rwa [List.append_nil] at hline
  · exact (hline.of_append_cons encodeChar_newline).1

/-- A description is one phrase and the position. -/
theorem Fault.exists_describe (fault : Fault) :
    ∃ phrase : String, fault.describe = phrase ++ integerText fault.position ∧
      '\n' ∉ phrase.toList := by
  cases fault with
  | outOfBounds position direction =>
      cases direction <;> exact ⟨_, rfl, by simp [toString, Direction.name]⟩
  | missingClosing position => exact ⟨_, rfl, by simp [toString]⟩
  | missingOpening position => exact ⟨_, rfl, by simp [toString]⟩

theorem newline_notMem_toDigits (n : Nat) : '\n' ∉ Nat.toDigits 10 n := by
  intro h
  have hdigit := Nat.isDigit_of_mem_toDigits (by decide) (by decide) h
  cases hdigit

theorem Fault.newline_notMem_describe {fault : Fault} {pc : Nat} (hposition : fault.position = pc)
    (hpc : pc ≤ Binary64.maxSafeInteger) : '\n' ∉ fault.describe.toList := by
  obtain ⟨phrase, hdescribe, hphrase⟩ := fault.exists_describe
  rw [hdescribe, hposition, integerText_natCast hpc]
  simp [hphrase, newline_notMem_toDigits]

namespace CodeFrame

theorem wellFormed_chop {line : List UInt8} (h : Utf8.WellFormed line) :
    Utf8.WellFormed (chop 13 line) := by
  rcases chop_cases 13 line with hchopped | ⟨hwhole, _⟩
  · rw [hchopped] at h
    exact (h.of_append_cons (c := '\r') rfl).1
  · rwa [← hwhole]

/-- What is shown of a line of a text is a text, and an instruction stands in it as a
character behind the characters of the octets before it. -/
theorem exists_characters {line : List UInt8} {column : Nat} {i : Instruction}
    (htext : Utf8.WellFormed line) (hnewline : newline ∉ line)
    (hoctet : (chop 13 line)[column]? = some i.toByte) :
    ∃ before after : String,
      (Utf8.decode (chop 13 line)).toList = before.toList ++ i.toChar :: after.toList ∧
      (Utf8.encode before).length = column ∧
      (chop 13 line).length = column + 1 + (Utf8.encode after).length ∧
      '\n' ∉ (Utf8.decode (chop 13 line)).toList := by
  obtain ⟨shown, hshown⟩ := wellFormed_chop htext
  have hline : '\n' ∉ shown.toList := by
    intro hmem
    have hoctets := Utf8.mem_encode_of_mem encodeChar_newline hmem
    rw [hshown] at hoctets
    exact hnewline (mem_of_mem_chop hoctets)
  obtain ⟨hlt, hbyte⟩ := List.getElem?_eq_some_iff.mp hoctet
  have hsplit : Utf8.encode shown =
      (chop 13 line).take column ++ i.toByte :: (chop 13 line).drop (column + 1) := by
    rw [hshown, ← hbyte, ← List.drop_eq_getElem_cons, List.take_append_drop]
  obtain ⟨before, after, hcharacters, hbefore, hafter⟩ :=
    Utf8.exists_cut i.encodeChar_toChar hsplit
  refine ⟨before, after, ?_, ?_, ?_, ?_⟩
  · rw [← hshown, Utf8.decode_encode, hcharacters]
  · rw [hbefore, List.length_take_of_le (Nat.le_of_lt hlt)]
  · rw [hafter, List.length_drop]
    omega
  · rw [← hshown, Utf8.decode_encode]
    exact hline

theorem toList_caret (width column : Nat) :
    (s!"{spaces width} | {spaces column}^").toList =
      (List.replicate width ' ' ++ [' ', '|', ' '] ++ List.replicate column ' ') ++ ['^'] := by
  simp [spaces, toString]

/-- The only caret of the last line stands behind a gutter of the same width as that of the
line number, and behind the indent. -/
theorem idxOf_caret (line column : Nat) :
    (s!"{spaces (toString line).length} | {spaces column}^").toList.idxOf '^' =
      (s!"{line} | ").length + column := by
  have hcaret : '^' ∉ List.replicate (toString line).length ' ' ++ [' ', '|', ' '] ++
      List.replicate column ' ' := by
    simp
  have hgutter : (s!"{line} | ").length = (toString line).length + 3 :=
    String.length_append _ _
  rw [toList_caret, List.idxOf_append, if_neg hcaret, List.idxOf_cons_self, hgutter]
  simp only [List.length_append, List.length_replicate, List.length_cons, List.length_nil]
  omega

theorem getElem?_idxOf_caret (width column : Nat) :
    let caretLine := (s!"{spaces width} | {spaces column}^").toList
    caretLine[caretLine.idxOf '^']? = some '^' := by
  have hmem : '^' ∈ (s!"{spaces width} | {spaces column}^").toList := by
    rw [toList_caret]
    exact List.mem_append_right _ (List.mem_singleton_self _)
  exact List.getElem?_eq_some_iff.mpr ⟨List.idxOf_lt_length_of_mem hmem, List.getElem_idxOf _⟩

theorem newline_notMem_heading {name : String} {fault : Fault} (hname : '\n' ∉ name.toList)
    (hfault : '\n' ∉ fault.describe.toList) (line column : Nat) :
    '\n' ∉ (s!"{name}:{line}:{column} error: {fault.describe}").toList := by
  change '\n' ∉ (name ++ ":" ++ toString line ++ ":" ++ toString column ++ " error: " ++
    fault.describe).toList
  simp [hname, newline_notMem_toDigits, hfault]

theorem newline_notMem_shown {text : String} (htext : '\n' ∉ text.toList) (line : Nat) :
    '\n' ∉ (s!"{line} | {text}").toList := by
  change '\n' ∉ (toString line ++ " | " ++ text).toList
  simp [newline_notMem_toDigits, htext]

theorem newline_notMem_caret (width column : Nat) :
    '\n' ∉ (s!"{spaces width} | {spaces column}^").toList := by
  rw [toList_caret]
  simp

/-- Lines without newlines are found again by splitting. -/
theorem splitOn_lines {first second third : String} (hfirst : '\n' ∉ first.toList)
    (hsecond : '\n' ∉ second.toList) (hthird : '\n' ∉ third.toList) :
    (first ++ "\n" ++ (second ++ "\n") ++ third).toList.splitOn '\n' =
      [first.toList, second.toList, third.toList] := by
  have hlines : (first ++ "\n" ++ (second ++ "\n") ++ third).toList =
      ['\n'].intercalate [first.toList, second.toList, third.toList] := by
    simp [List.intercalate]
  rw [hlines]
  apply List.splitOn_intercalate
  · simp [hfirst, hsecond, hthird]
  · exact List.cons_ne_nil _ _

end CodeFrame

/-- Where the caret of a fault that an execution of a text returns stands. The second line of
the frame shows the faulting instruction behind the gutter and the characters before it, and
the third line has its caret behind the same gutter and the octets of these characters. So the
caret is never to the left of the instruction, and stands under it exactly if all characters
before it are ASCII. There is a frame unless it, or the line, would be longer than any text. -/
theorem caret_of_faulted {ε σ : Type} (host : Host) (streams : Streams (Effect ε σ))
    (settings : Settings) (p : Program) (n : Nat) (s : σ) {s' : σ} {fault : Fault} (name : String)
    (hsize : p.size ≤ Binary64.maxSafeInteger) (htext : Utf8.WellFormed p.toList)
    (hname : '\n' ∉ name.toList)
    (h : (interpret host streams settings p n).runFrom s =
      (.ok (.ok (some (.faulted fault))), s')) :
    ∃ (line : Nat) (before after frame : String) (first second third : List Char)
      (error : FrameError),
      let gutter := s!"{line + 1} | "
      let octets := (Utf8.encode before).length
      let caret := third.idxOf '^'
      p.locate fault.position = ⟨line + 1, (octets : Int) + 1⟩ ∧
      CodeFrame.render p fault name =
        (if octets + 1 + (Utf8.encode after).length ≤ Utf16.maxLength ∧
            Utf16.length frame.toList ≤ Utf16.maxLength then
          .ok frame
        else .error error) ∧
      frame.toList.splitOn '\n' = [first, second, third] ∧
      second = gutter.toList ++ (before.toList ++ fault.instruction.toChar :: after.toList) ∧
      third[caret]? = some '^' ∧
      caret = gutter.length + octets ∧
      gutter.length + before.length ≤ caret ∧
      (caret = gutter.length + before.length ↔ ∀ c ∈ before.toList, c.val ≤ 127) ∧
      ((∀ c ∈ before.toList, c.val ≤ 127) →
        second[caret]? = some fault.instruction.toChar) := by
  obtain ⟨options, hoptions⟩ := exists_prepare_of_yields h
  obtain ⟨pc, hposition, hinstruction⟩ := exists_instruction_of_faulted hoptions h
  obtain ⟨front, bytes, rest, column, hcut, _, hlocate, hoctet, hframe⟩ :=
    CodeFrame.exists_frame hposition hinstruction hsize
  obtain ⟨error, hrender⟩ := FrameError.exists_eq_ite (hframe name)
  obtain ⟨before, after, hshown, rfl, hlength, hnewline⟩ :=
    CodeFrame.exists_characters (hcut.wellFormed htext) hcut.noNewline hoctet
  rw [hlength] at hrender
  have hpc := Program.lt_size_of_instruction?_eq_some hinstruction
  have hfault := Fault.newline_notMem_describe hposition (by omega)
  generalize front.count newline = line at *
  have hlines := CodeFrame.splitOn_lines
    (CodeFrame.newline_notMem_heading hname hfault (line + 1) ((Utf8.encode before).length + 1))
    (CodeFrame.newline_notMem_shown hnewline (line + 1))
    (CodeFrame.newline_notMem_caret (toString (line + 1)).length (Utf8.encode before).length)
  have hsecond : (s!"{line + 1} | {Utf8.decode (CodeFrame.chop 13 bytes)}").toList =
      (s!"{line + 1} | ").toList ++
        (before.toList ++ fault.instruction.toChar :: after.toList) := by
    rw [← hshown]
    exact String.toList_append
  have hcaret := CodeFrame.idxOf_caret (line + 1) (Utf8.encode before).length
  have hle := Utf8.length_le_length_encode before
  have hascii := Utf8.length_encode_eq_iff before
  refine ⟨line, before, after, _, _, _, _, error, hlocate, hrender, hlines, hsecond,
    CodeFrame.getElem?_idxOf_caret _ _, hcaret, ?_, ?_, ?_⟩
  · omega
  · rw [hcaret, ← hascii]
    omega
  · intro hbefore
    rw [hcaret, hsecond, hascii.mpr hbefore, ← String.length_toList, ← String.length_toList,
      ← List.length_append, ← List.append_assoc, List.getElem?_append_right (Nat.le_refl _),
      Nat.sub_self]
    rfl

/-- Behind a line with a character of two octets, an ASCII line has its caret in place. -/
theorem caret_on_ascii_line :
    let p := Program.ofText "é\n-<"
    let fault := Fault.outOfBounds 4 .left
    p.size ≤ Binary64.maxSafeInteger ∧ Utf8.WellFormed p.toList ∧ '\n' ∉ "x".toList ∧
      (∃ s', (interpret (.upTo 1024) (Script.streams {} {}) (Settings.empty.withTapeLength 2)
        p 5).runFrom (.ofInput []) = (.ok (.ok (some (.faulted fault))), s')) ∧
      ∃ (frame : String) (first second third : List Char),
        CodeFrame.render p fault "x" = .ok frame ∧
        frame.toList.splitOn '\n' = [first, second, third] ∧
        second[third.idxOf '^']? = some '<' := by
  intro p fault
  have hsize : p.size ≤ Binary64.maxSafeInteger := by decide
  have htext : Utf8.WellFormed p.toList := ⟨_, rfl⟩
  have hname : '\n' ∉ "x".toList := by decide
  have hrun : (interpret (.upTo 1024) (Script.streams {} {}) (Settings.empty.withTapeLength 2)
      p 5).runFrom (.ofInput []) = (.ok (.ok (some (.faulted fault))), _) := rfl
  have hlocate : p.locate fault.position = ⟨2, 2⟩ := by decide +kernel
  obtain ⟨line, before, after, frame, first, second, third, error, hplace, hframe, hlines, _, _,
    _, _, _, hcaret⟩ := caret_of_faulted (.upTo 1024) (Script.streams {} {})
      (Settings.empty.withTapeLength 2) p 5 (.ofInput []) "x" hsize htext hname hrun
  obtain ⟨hline, hcolumn⟩ := Location.mk.inj (hplace.symm.trans hlocate)
  have hone : (Utf8.encode before).length = 1 := by omega
  have hle := Utf8.length_le_length_encode before
  have hne : before.length ≠ 0 := by
    intro hzero
    rw [String.length_eq_zero_iff.mp hzero] at hone
    cases hone
  have hascii := (Utf8.length_encode_eq_iff before).mp (by omega)
  have hrendered : CodeFrame.render p fault "x" =
      .ok "x:2:2 error: data pointer moved left out of bounds at char 4\n2 | -<\n  |  ^" := by
    decide +kernel
  split at hframe
  next =>
    exact ⟨hsize, htext, hname, ⟨_, hrun⟩, frame, first, second, third, hframe, hlines,
      hcaret hascii⟩
  next => cases hrendered.symm.trans hframe

/-- The caret stands behind the instruction if a longer character comes before it. -/
theorem caret_beside_instruction :
    let p := Program.ofText "é<"
    let fault := Fault.outOfBounds 2 .left
    (∃ s', (interpret (.upTo 1024) (Script.streams {} {}) (Settings.empty.withTapeLength 2)
        p 3).runFrom (.ofInput []) = (.ok (.ok (some (.faulted fault))), s')) ∧
      ∃ (frame : String) (first second third : List Char),
        CodeFrame.render p fault "p" = .ok frame ∧
        frame.toList.splitOn '\n' = [first, second, third] ∧
        second.idxOf '<' = 5 ∧ third.idxOf '^' = 6 ∧ second[third.idxOf '^']? = none := by
  intro p fault
  have hframe : CodeFrame.render p fault "p" =
      .ok "p:1:3 error: data pointer moved left out of bounds at char 2\n1 | é<\n  |   ^" := by
    decide +kernel
  refine ⟨⟨_, rfl⟩, _, "p:1:3 error: data pointer moved left out of bounds at char 2".toList,
    ['1', ' ', '|', ' ', 'é', '<'], [' ', ' ', '|', ' ', ' ', ' ', '^'], hframe, ?_, ?_, ?_, ?_⟩
  · decide +kernel
  · decide
  · decide
  · decide

end Brainfuck
