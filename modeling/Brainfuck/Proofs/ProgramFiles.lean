import Brainfuck.Proofs.ExitCodes

/-!
# Programs in files

A program can be given as a text among the arguments, or as the path of a file that holds the
octets of the text. The two ways part in the arguments, where another item takes the place of
the text, and in loading, where the octets come from the file. They meet again in the loaded
program, of which only the name is another one. An execution does not look at the name, and a
code frame starts with it. So the two runs are the same, up to the name at the start of the
frame.
-/
namespace Brainfuck

variable {host : Host}

/-- A path names a file with the given contents, and the file can be read. A path that holds a
null character names no file. -/
structure FileAccess.Reads (files : FileAccess Id) (path : String) (contents : List UInt8) :
    Prop where
  noNull : '\x00' ∉ path.toList
  size : Id.run (files.size path) = .ok contents.length
  contents : Id.run (files.contents path) = .ok contents

theorem FileSystem.reads_access {fs : FileSystem} {path : String} {contents : List UInt8}
    (hnull : '\x00' ∉ path.toList) (h : fs.lookup path = .ok (.file contents)) :
    fs.access.Reads path contents where
  noNull := hnull
  size := by simp [access, FileSystem.size, h, Entry.size, Id.run]
  contents := by simp [access, FileSystem.contents, h, Id.run]

/-- A file up to the limit is loaded as it is. -/
theorem ProgramSource.load_file {files : FileAccess Id} {path : String} {contents : List UInt8}
    (h : files.Reads path contents) (hsize : contents.length ≤ maxBytes) :
    Id.run ((file path none).load files) = .ok ⟨path, Program.ofBytes contents⟩ := by
  have hlimit : (Binary64.ofNat maxBytes).ltNat contents.length = false := by
    rw [Bool.eq_false_iff, ne_eq, Binary64.ltNat_ofNat_iff (by decide) (by decide)]
    exact Nat.not_lt.mpr hsize
  have hstat : files.size path = pure (.ok contents.length) := h.size
  have hread : files.contents path = pure (.ok contents) := h.contents
  simp [load, h.noNull, hstat, hread, hlimit]

namespace CodeFrame

/-- A frame starts with the name, and the rest of it does not depend on the name. -/
theorem exists_renderLine_eq {p : Program} {fault : Fault} {pc : Nat}
    (hposition : fault.position = pc) (hinstruction : p.instruction? pc = some fault.instruction)
    (hsize : p.size ≤ Binary64.maxSafeInteger) :
    ∃ shown, ∀ name text, renderLine p fault name = .ok text → text = name ++ shown ++ "\n" := by
  obtain ⟨front, line, _, column, _, _, _, _, hframe⟩ := exists_frame hposition hinstruction hsize
  refine ⟨frameText "" fault (front.count newline) column (Utf8.decode (chop 13 line)), ?_⟩
  intro name text htext
  obtain ⟨frame, hrender, _, rfl⟩ := renderLine_eq_ok_iff.mp htext
  obtain ⟨_, rfl⟩ := (hframe name frame).mp hrender
  simp only [frameText, toString, String.append_assoc, String.empty_append]

end CodeFrame

namespace Arguments

/-- The place in the arguments of the item that gives the program as a text. Only items stand
before it. -/
structure EvalItem (text : String) (before words after arguments : List String) : Prop where
  arguments_eq : arguments = before ++ words ++ after
  items : ∃ items, Written items before
  spelled : (Item.eval text).Spelled words

section
variable {env : Environment} {command : Command} {text path : String}
variable {before words after arguments : List String}

theorem exists_evalItem (h : parse env arguments = .ok (.run command))
    (hsource : command.source = .literal text) :
    ∃ before words after, EvalItem text before words after arguments := by
  obtain ⟨items, hwritten, hasks⟩ := parse_eq_run_iff_asks.mp h
  have hchooses := hasks.source
  rw [hsource] at hchooses
  cases hchooses with
  | literal hevals _ =>
      have htext : text ∈ items.filterMap Item.eval? := by simp [hevals]
      obtain ⟨item, hitem, heval⟩ := List.mem_filterMap.mp htext
      cases item with
      | eval text' =>
          obtain rfl : text' = text := Option.some.inj heval
          obtain ⟨front, before, words, after, hplace, hfront, hspelled⟩ :=
            hwritten.exists_place hitem
          exact ⟨before, words, after, hplace, ⟨front, hfront⟩, hspelled⟩
      | _ => cases heval

/-- Behind items the arguments of a run go on with items. -/
theorem Written.exists_asks {front : List Item} {rest : List String} (hfront : Written front before)
    (h : parse env (before ++ rest) = .ok (.run command)) :
    ∃ back, Written back rest ∧ Asks env (front ++ back) command := by
  obtain ⟨draft, hread, hsource, hrest⟩ := parse_eq_run_iff.mp h
  obtain ⟨next, hnext, hread⟩ := hfront.exists_addAll? hread
  obtain ⟨back, hback, hadd⟩ := read_eq_some_iff.mp hread
  refine ⟨back, hback, asks_of_addAll? ?_ hsource hrest⟩
  unfold Draft.addAll? at hnext ⊢
  rw [List.foldlM_append, hnext]
  exact hadd

theorem filterMap_around {α : Type} (f : Item → Option α) (front back : List Item) (item : Item) :
    (front ++ [item] ++ back).filterMap f =
      front.filterMap f ++ (f item).toList ++ back.filterMap f := by
  cases hitem : f item <;> simp [hitem]

/-- The one text among the items makes room for the one path. -/
theorem Chooses.replace_eval {front back : List Item} {source : ProgramSource}
    (h : Chooses (front ++ [.eval text] ++ back) source) (path : String) :
    Chooses (front ++ [.file path] ++ back) (.file path none) := by
  cases h with
  | literal hevals hfiles =>
      rw [filterMap_around] at hevals hfiles
      obtain ⟨hfront, _, hback⟩ : front.filterMap Item.eval? = [] ∧ _ ∧
          back.filterMap Item.eval? = [] := by
        simpa [Item.eval?, List.append_eq_singleton_iff, -List.filterMap_eq_nil_iff] using hevals
      obtain ⟨hfront', hback'⟩ : front.filterMap Item.file? = [] ∧
          back.filterMap Item.file? = [] := by
        simpa [Item.file?, -List.filterMap_eq_nil_iff] using hfiles
      refine .file ?_ ?_
      · rw [filterMap_around, hfront, hback]
        rfl
      · rw [filterMap_around, hfront', hback']
        rfl
  | file hevals hfiles =>
      rw [filterMap_around] at hevals
      simp [Item.eval?] at hevals

/-- A path in the place of the text changes the program and nothing else. -/
theorem Asks.replace_eval {front back : List Item}
    (h : Asks env (front ++ [.eval text] ++ back) command) (path : String) :
    Asks env (front ++ [.file path] ++ back) { command with source := .file path none } where
  source := h.source.replace_eval path
  quiet := by simpa using h.quiet
  frame := by simpa using h.frame
  tapeLength := by simpa [Item.tapeLength?] using h.tapeLength
  cellWidth := by simpa [Item.cellWidth?] using h.cellWidth
  brackets := by simpa [Item.brackets?] using h.brackets

theorem EvalItem.parse_eq (hplace : EvalItem text before words after arguments)
    (h : parse env arguments = .ok (.run command))
    (hpath : path.toList.head? ≠ some '-' ∨ path = "-") :
    parse env (before ++ path :: after) =
      .ok (.run { command with source := .file path none }) := by
  obtain ⟨rfl, ⟨front, hfront⟩, hspelled⟩ := hplace
  obtain ⟨back, hback, hasks⟩ := (hfront.append hspelled.written).exists_asks h
  have hfile : Written [.file path] [path] := (Item.Spelled.file hpath).written
  have hwords : before ++ path :: after = before ++ [path] ++ after := by simp
  rw [hwords]
  exact parse_eq_run_iff_asks.mpr
    ⟨_, (hfront.append hfile).append hback, hasks.replace_eval path⟩

end

end Arguments

namespace Command

variable {command : Command} {p : Program} {fault : Fault}

/-- A run of a command comes to a frame: the command asks for one, and its program ends with a
fault. -/
structure Frames (host : Host) (command : Command) (p : Program) (input : List UInt8)
    (budget : Nat) (fault : Fault) : Prop where
  asked : command.frame = true
  faulted : ((interpretInMemory host command.settings p budget).run (.ofInput input)).1 =
    .ok (some (.faulted fault))

/-- Without a frame there is no name in what a command reports. -/
theorem diagnostics_congr_name {verdict : Verdict}
    (h : command.frame = true → verdict = .completed) (name name' : String) :
    command.diagnostics ⟨name, p⟩ verdict = command.diagnostics ⟨name', p⟩ verdict := by
  cases hframe : command.frame with
  | true =>
      obtain rfl := h hframe
      rw [diagnostics_completed, diagnostics_completed]
  | false =>
      unfold diagnostics
      rw [hframe, if_neg nofun, if_neg nofun]

end Command

namespace CommandLine

/-- What a run of a command on a program of the given name comes to where a frame is asked for.
The frame is the name and then `shown`, and it is there unless the program or the name is too
long. -/
structure Framed (command : Command) (p : Program) (fault : Fault) (shown name : String)
    (ended : Outcome × Memory) : Prop where
  text : ∀ text, CodeFrame.renderLine p fault name = .ok text → text = name ++ shown ++ "\n"
  shows : ∀ text, CodeFrame.renderLine p fault name = .ok text → ended.1 = .ok (some .failure) ∧
    ended.2.errors.bytes = Utf8.encode (command.line (.faulted fault) ++ text)
  fails : ∀ error, CodeFrame.renderLine p fault name = .error error →
    ended.1 = .error (.frame error) ∧
      ended.2.errors.bytes = Utf8.encode (command.line (.faulted fault))
  short : 3 * p.size + Utf16.length name.toList + 256 ≤ Utf16.maxLength →
    ∃ text, CodeFrame.renderLine p fault name = .ok text

/-- Two runs of a command on one program under two names. Everything is the same but the name
at the start of a frame. -/
structure Renamed (host : Host) (command : Command) (p : Program) (name name' : String)
    (input : List UInt8) (budget : Nat) (ended ended' : Outcome × Memory) : Prop where
  exitCode : ended'.1.exitCode = ended.1.exitCode
  output : ended'.2.output.bytes = ended.2.output.bytes
  unread : ended'.2.input.unread = ended.2.input.unread
  unframed : (∀ fault, ¬ command.Frames host p input budget fault) →
    ended'.1 = ended.1 ∧ ended'.2.errors.bytes = ended.2.errors.bytes
  framed : ∀ fault, command.Frames host p input budget fault →
    ∃ shown, Framed command p fault shown name ended ∧ Framed command p fault shown name' ended'

section
variable {command : Command} {options : Options} {p : Program} {input : List UInt8} {n : Nat}

/-- A frame is asked for of a fault, so the exit code is that of a failure either way. -/
theorem runLoaded_of_frames (hoptions : command.settings.prepare host = .ok options)
    {fault : Fault} (h : command.Frames host p input n fault) (name : String) :
    let later := ((interpretInMemory host command.settings p n).run (.ofInput input)).2
    (runLoaded host Memory.streams command ⟨name, p⟩ n).run (.ofInput input) =
      match CodeFrame.renderLine p fault name with
      | .ok text => (.ok (some .failure),
          { later with errors := .ofText (command.line (.faulted fault) ++ text) })
      | .error error => (.error (.frame error),
          { later with errors := .ofText (command.line (.faulted fault)) }) := by
  intro later
  have hrun : (interpretInMemory host command.settings (LoadedProgram.mk name p).program n).run
      (.ofInput input) = (.ok (some (.faulted fault)), later) := Prod.ext h.faulted rfl
  rw [runLoaded_of_verdict hoptions hrun, Command.diagnostics, if_pos h.asked]
  unfold Verdict.frame
  dsimp only
  cases CodeFrame.renderLine p fault name <;> rfl

theorem framed_runLoaded (hoptions : command.settings.prepare host = .ok options)
    {fault : Fault} (h : command.Frames host p input n fault) {pc : Nat}
    (hposition : fault.position = pc) (hinstruction : p.instruction? pc = some fault.instruction)
    {shown name : String} (htext : ∀ text, CodeFrame.renderLine p fault name = .ok text →
      text = name ++ shown ++ "\n") :
    Framed command p fault shown name
      ((runLoaded host Memory.streams command ⟨name, p⟩ n).run (.ofInput input)) where
  text := htext
  shows text hrender := by
    rw [runLoaded_of_frames hoptions h, hrender]
    exact ⟨rfl, OutputBuffer.bytes_ofText _⟩
  fails error hrender := by
    rw [runLoaded_of_frames hoptions h, hrender]
    exact ⟨rfl, OutputBuffer.bytes_ofText _⟩
  short hsize := CodeFrame.exists_renderLine hposition hinstruction hsize

/-- Besides the frame, what such a run leaves does not depend on the name. -/
theorem outcome_of_frames (hoptions : command.settings.prepare host = .ok options)
    {fault : Fault} (h : command.Frames host p input n fault) (name : String) :
    let later := ((interpretInMemory host command.settings p n).run (.ofInput input)).2
    let ended := (runLoaded host Memory.streams command ⟨name, p⟩ n).run (.ofInput input)
    Outcome.exitCode ended.1 = some .failure ∧ ended.2.output = later.output ∧
      ended.2.input = later.input := by
  intro later ended
  have hended := runLoaded_of_frames hoptions h name
  dsimp only [ended]
  rw [hended]
  cases CodeFrame.renderLine p fault name <;> exact ⟨rfl, rfl, rfl⟩

/-- Two runs that show a frame, or fail to, leave the same besides it. -/
theorem Renamed.of_frames (hoptions : command.settings.prepare host = .ok options)
    (hsize : p.size ≤ Binary64.maxSafeInteger) {fault : Fault}
    (h : command.Frames host p input n fault) (name name' : String) :
    Renamed host command p name name' input n
      ((runLoaded host Memory.streams command ⟨name, p⟩ n).run (.ofInput input))
      ((runLoaded host Memory.streams command ⟨name', p⟩ n).run (.ofInput input)) := by
  obtain ⟨pc, hposition, hinstruction⟩ :=
    exists_instruction_in_memory hoptions (Prod.ext h.faulted rfl)
  obtain ⟨shown, hshown⟩ := CodeFrame.exists_renderLine_eq hposition hinstruction hsize
  obtain ⟨hexit, houtput, hinput⟩ := outcome_of_frames hoptions h name
  obtain ⟨hexit', houtput', hinput'⟩ := outcome_of_frames hoptions h name'
  refine ⟨hexit'.trans hexit.symm, ?_, ?_, fun hnone => (hnone fault h).elim, ?_⟩
  · rw [houtput', houtput]
  · rw [hinput', hinput]
  · intro fault' h'
    obtain rfl : fault = fault' := by simpa using h.faulted.symm.trans h'.faulted
    exact ⟨shown, framed_runLoaded hoptions h hposition hinstruction (hshown name),
      framed_runLoaded hoptions h hposition hinstruction (hshown name')⟩

theorem Renamed.of_eq {name name' : String} {ended ended' : Outcome × Memory}
    (hnone : ∀ fault, ¬ command.Frames host p input n fault) (h : ended' = ended) :
    Renamed host command p name name' input n ended ended' := by
  subst h
  exact ⟨rfl, rfl, rfl, fun _ => ⟨rfl, rfl⟩, fun fault h => (hnone fault h).elim⟩

theorem runLoaded_congr_name (h : ∀ fault, ¬ command.Frames host p input n fault)
    (name name' : String) :
    (runLoaded host Memory.streams command ⟨name, p⟩ n).run (.ofInput input) =
      (runLoaded host Memory.streams command ⟨name', p⟩ n).run (.ofInput input) := by
  cases hoptions : command.settings.prepare host with
  | error error => rw [runLoaded_of_error hoptions, runLoaded_of_error hoptions]
  | ok options =>
      obtain ⟨result, later, hresult, _⟩ :=
        interpretInMemory_of_prepared p n hoptions (.ofInput input)
      have hrun : ∀ name, (interpretInMemory host command.settings
          (LoadedProgram.mk name p).program n).run (.ofInput input) = (.ok result, later) :=
        fun _ => hresult
      cases result with
      | none =>
          rw [runLoaded_of_running hoptions (hrun name),
            runLoaded_of_running hoptions (hrun name')]
      | some verdict =>
          have hname : command.diagnostics ⟨name, p⟩ verdict =
              command.diagnostics ⟨name', p⟩ verdict := by
            apply Command.diagnostics_congr_name
            intro hasked
            cases verdict with
            | completed => rfl
            | faulted fault => exact (h fault ⟨hasked, congrArg Prod.fst hresult⟩).elim
          rw [runLoaded_of_verdict hoptions (hrun name),
            runLoaded_of_verdict hoptions (hrun name'), hname]

theorem renamed_runLoaded (host : Host) (command : Command) {p : Program}
    (hsize : p.size ≤ Binary64.maxSafeInteger) (name name' : String) (input : List UInt8)
    (n : Nat) :
    Renamed host command p name name' input n
      ((runLoaded host Memory.streams command ⟨name, p⟩ n).run (.ofInput input))
      ((runLoaded host Memory.streams command ⟨name', p⟩ n).run (.ofInput input)) := by
  by_cases hframes : ∃ fault, command.Frames host p input n fault
  · obtain ⟨fault, h⟩ := hframes
    have hrun : (interpretInMemory host command.settings p n).run (.ofInput input) =
        (.ok (some (.faulted fault)), _) := Prod.ext h.faulted rfl
    obtain ⟨options, hoptions⟩ := exists_prepare_of_memory _ _ hrun
    exact .of_frames hoptions hsize h name name'
  · have hnone : ∀ fault, ¬ command.Frames host p input n fault :=
      fun fault h => hframes ⟨fault, h⟩
    exact .of_eq hnone (runLoaded_congr_name hnone name' name)

end

end CommandLine

/-- A program in a file runs like the same program given as a text. Where arguments ask for the
run of a text, one of their items gives it, and the path of a file that holds the octets of the
text can take the place of this item. The run then has the same exit code, or none in both ways,
the same output and the same unread input. The error log is the same, too, but for a code frame,
which starts with the path and not with the name of a literal program, and which is there in both
ways unless the program or the path is too long for it. -/
theorem file_runs_like_literal (host : Host) {files : FileAccess Id} {env : Environment}
    {arguments : List String} {command : Command} {text path : String}
    (hparse : Arguments.parse env arguments = .ok (.run command))
    (hsource : command.source = .literal text)
    (hpath : path.toList.head? ≠ some '-' ∨ path = "-")
    (hfile : files.Reads path (Utf8.encode text))
    (hsize : (Utf8.encode text).length ≤ ProgramSource.maxBytes) :
    (∃ before words after, Arguments.EvalItem text before words after arguments) ∧
    ∀ before words after, Arguments.EvalItem text before words after arguments →
      ∀ input budget, CommandLine.Renamed host command (Program.ofText text)
        ProgramSource.literalName path input budget
        ((CommandLine.run host Memory.streams files.lift env arguments budget).run (.ofInput input))
        ((CommandLine.run host Memory.streams files.lift env (before ++ path :: after) budget).run
          (.ofInput input)) := by
  refine ⟨Arguments.exists_evalItem hparse hsource, ?_⟩
  intro before words after hplace input budget
  have hsafe : (Program.ofText text).size ≤ Binary64.maxSafeInteger := hsize.trans (by decide)
  have hliteral : CommandLine.Executes files env arguments command
      ⟨ProgramSource.literalName, Program.ofText text⟩ := ⟨hparse, by rw [hsource]; rfl⟩
  have hloaded : CommandLine.Executes files env (before ++ path :: after)
      { command with source := .file path none } ⟨path, Program.ofText text⟩ :=
    ⟨hplace.parse_eq hparse hpath, ProgramSource.load_file hfile hsize⟩
  rw [CommandLine.run_of_executes hliteral, CommandLine.run_of_executes hloaded]
  exact CommandLine.renamed_runLoaded host command hsafe _ _ input budget

/-- A single dash is a name like any other. -/
theorem FileSystem.lookup_dash (contents : List UInt8) :
    (FileSystem.mk [(["-"], .file contents)]).lookup "-" = .ok (.file contents) := by
  have hnames : names "-" = ["-"] := by
    unfold names String.splitOn
    rw [if_neg (by decide), String.splitOnAux.eq_def, if_neg (by decide), if_neg (by decide),
      String.splitOnAux.eq_def, if_pos (by decide)]
    decide
  have hrelative : "-".startsWith "/" = false := by simp
  unfold lookup
  rw [hnames, hrelative]
  rfl

/-- A program leaves the tape behind a character of two octets, and the file that holds it goes
by a single dash. Both runs show the frame, each under its own name. -/
theorem file_runs_like_literal_in_frame :
    let host := Host.upTo 1024
    let text := "é,.<"
    let files : FileAccess Id := (FileSystem.mk [(["-"], .file (Utf8.encode text))]).access
    let literal := ["--frame", "--eval=é,.<", "--tape-length", "2"]
    let file := ["--frame", "-", "--tape-length", "2"]
    let ended := (CommandLine.run host Memory.streams files.lift (fun _ => none) literal 6).run
      (.ofInput [7, 9])
    let ended' := (CommandLine.run host Memory.streams files.lift (fun _ => none) file 6).run
      (.ofInput [7, 9])
    let fault := Fault.outOfBounds 4 .left
    let shown := ":1:5 error: " ++ fault.describe ++ "\n1 | é,.<\n  |     ^"
    files.Reads "-" (Utf8.encode text) ∧
      Arguments.EvalItem text ["--frame"] ["--eval=é,.<"] ["--tape-length", "2"] literal ∧
      ended.1 = .ok (some .failure) ∧ ended'.1 = .ok (some .failure) ∧
      ended.2.output.bytes = [7] ∧ ended'.2.output.bytes = [7] ∧
      ended.2.input.unread = [9] ∧ ended'.2.input.unread = [9] ∧
      ended.2.errors.bytes = Utf8.encode (fault.line ++ ("<eval>" ++ shown ++ "\n")) ∧
      ended'.2.errors.bytes = Utf8.encode (fault.line ++ ("-" ++ shown ++ "\n")) := by
  intro host text files literal file ended ended' fault shown
  have hfile : files.Reads "-" (Utf8.encode text) :=
    FileSystem.reads_access (by decide) (FileSystem.lookup_dash _)
  have hparse : Arguments.parse (fun _ => none) literal =
      .ok (.run ⟨.literal text, .ofValues (some 2) none none, false, true⟩) := rfl
  have heval : Arguments.Valued Arguments.ValueFlag.eval.name text ["--eval=é,.<"] := .joined
  have hplace : Arguments.EvalItem text ["--frame"] ["--eval=é,.<"] ["--tape-length", "2"]
      literal :=
    ⟨rfl, ⟨_, (Arguments.Item.Spelled.frame .alone).written⟩, .valued rfl heval⟩
  have hframes : Command.Frames host ⟨.literal text, .ofValues (some 2) none none, false, true⟩
      (Program.ofText text) [7, 9] 6 fault := ⟨rfl, by decide +kernel⟩
  have houtput : ended.2.output.bytes = [7] := by decide +kernel
  have hunread : ended.2.input.unread = [9] := by decide +kernel
  obtain ⟨_, hruns⟩ := file_runs_like_literal host hparse rfl (.inr rfl) hfile (by decide +kernel)
  have hrenamed := hruns _ _ _ hplace [7, 9] 6
  obtain ⟨_, hframed, hframed'⟩ := hrenamed.framed fault hframes
  obtain ⟨hexit, hlog⟩ := hframed.shows ("<eval>" ++ shown ++ "\n") (by decide +kernel)
  obtain ⟨hexit', hlog'⟩ := hframed'.shows ("-" ++ shown ++ "\n") (by decide +kernel)
  exact ⟨hfile, hplace, hexit, hexit', houtput, hrenamed.output.trans houtput, hunread,
    hrenamed.unread.trans hunread, hlog, hlog'⟩

end Brainfuck
