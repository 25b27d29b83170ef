import Brainfuck.Proofs.CommandSettings
import Brainfuck.Proofs.FrameLengths
import Brainfuck.Proofs.Process
import Brainfuck.Proofs.Sessions

/-!
# Exit codes and diagnostics

A run of the command line ends in one of four ways: the arguments make no sense, they ask for
help, the program cannot be loaded, or it is executed and comes to a verdict. The first three
leave the input alone. The exit code tells help and completion from everything else, and
everything else leaves something in the error log, unless a fault was to be passed over in
silence.

The quiet switch and the frame switch meet the execution only at the error log. An execution
without a log has the same verdict, output and input, and a frame is added when the execution
is over. So the log is put together from a line and a frame that do not depend on the switches.

A run comes to no exit code if the program is not started or runs for ever, and if a frame was
asked for that would be longer than any text.
-/
namespace Brainfuck

variable {host : Host}

/-- A fault that an execution in memory returns names the instruction that caused it. -/
theorem exists_instruction_in_memory {settings : Settings} {options : Options} {p : Program}
    {n : Nat} {memory later : Memory} {fault : Fault}
    (hoptions : settings.prepare host = .ok options)
    (h : (interpretInMemory host settings p n).run memory = (.ok (some (.faulted fault)), later)) :
    ∃ pc : Nat, fault.position = pc ∧ p.instruction? pc = some fault.instruction := by
  obtain ⟨r, hrun, _, _⟩ := exists_interpret_recorded settings p n memory
  rw [h] at hrun
  exact exists_instruction_of_faulted hoptions hrun

/-- A buffer that holds one text. -/
def OutputBuffer.ofText (text : String) : OutputBuffer := empty.write (Utf8.encode text)

@[simp] theorem OutputBuffer.bytes_ofText (text : String) :
    (ofText text).bytes = Utf8.encode text := by
  simp [ofText]

theorem OutputBuffer.bytes_ofText_eq_nil_iff {text : String} :
    (ofText text).bytes = [] ↔ text = "" := by
  rw [bytes_ofText]
  constructor
  · intro h
    rw [← Utf8.decode_encode text, h]
    rfl
  · rintro rfl
    rfl

theorem append_newline_ne (text : String) : text ++ "\n" ≠ "" := by
  simp

namespace Memory

/-- What happens on a memory happens in the same way if the error log is left as it is. -/
def muted : Simulation (StateM Memory) (StateM Memory) where
  Rel V x y := ∀ memory errors, V (x memory).1 (y { memory with errors := errors }).1 ∧
    (y { memory with errors := errors }).2 = { (x memory).2 with errors := errors }
  pure h _ _ := ⟨h, rfl⟩
  bind {_ _ _ _ x _ _ _} _ hx hfg := by
    intro memory errors
    obtain ⟨hvalue, hstate⟩ := hx memory errors
    have hnext := hfg _ _ hvalue (x memory).2 errors
    rw [← hstate] at hnext
    exact hnext

theorem muted_streams (w : Nat) : streams.Related muted w streams.quiet where
  read _ _ := ⟨rfl, rfl⟩
  out :=
    { write := fun _ _ _ => ⟨rfl, rfl⟩
      flush := fun _ _ => ⟨rfl, rfl⟩ }

theorem muted_log : streams.log.Related muted streams.quiet.log where
  write _ _ _ := ⟨rfl, rfl⟩
  flush _ _ := ⟨rfl, rfl⟩

end Memory

/-- The quiet streams change nothing but the error log. -/
theorem interpret_quiet (host : Host) (settings : Settings) (p : Program) (n : Nat)
    (memory : Memory) :
    (interpret host Memory.streams.quiet settings p n).run memory =
      (((interpretInMemory host settings p n).run memory).1,
        { ((interpretInMemory host settings p n).run memory).2 with errors := memory.errors }) := by
  have hrelated : Memory.muted.Rel Eq (interpretInMemory host settings p n)
      (interpret host Memory.streams.quiet settings p n) :=
    Execution.rel_interpret (fun hxy => hxy) (fun _ _ => Memory.muted_streams _)
      Memory.muted_log p n
  obtain ⟨hvalue, hstate⟩ := hrelated memory memory.errors
  exact Prod.ext hvalue.symm hstate

def Verdict.exitCode : Verdict → ExitCode
  | .completed => .success
  | .faulted _ => .failure

/-- The frame of a verdict and its newline, and nothing without a fault. -/
def Verdict.frame (loaded : LoadedProgram) : Verdict → Except FrameError String
  | .completed => .ok ""
  | .faulted fault => CodeFrame.renderLine loaded.program fault loaded.name

/-- What the execution of a program that a command has loaded comes to. -/
def Command.outcome (host : Host) (command : Command) (loaded : LoadedProgram)
    (input : List UInt8) (budget : Nat) : Except StartError (Option Verdict) :=
  ((interpretInMemory host command.settings loaded.program budget).run (.ofInput input)).1

/-- The line of a verdict, unless the command is quiet. -/
def Command.line (command : Command) (verdict : Verdict) : String :=
  if command.quiet then "" else verdict.line

/-- What a command reports of a verdict: the line, unless it is quiet, and the frame, if it
asks for one. -/
def Command.diagnostics (command : Command) (loaded : LoadedProgram) (verdict : Verdict) :
    Except FrameError String :=
  if command.frame then (verdict.frame loaded).map (command.line verdict ++ ·)
  else .ok (command.line verdict)

namespace Command

variable {command : Command} {loaded : LoadedProgram}

theorem diagnostics_completed : command.diagnostics loaded .completed = .ok "" := by
  have hline : command.line .completed = "" := ite_self _
  unfold diagnostics
  rw [hline]
  exact ite_self _

/-- A fault is passed over in silence only by a quiet command that asks for no frame. -/
theorem quiet_of_diagnostics {fault : Fault}
    (h : command.diagnostics loaded (.faulted fault) = .ok "") :
    command.quiet = true ∧ command.frame = false := by
  unfold diagnostics at h
  cases hframe : command.frame with
  | true =>
      rw [hframe, if_pos rfl] at h
      obtain ⟨frame, hshown, htext⟩ := exists_of_map_eq_ok h
      obtain ⟨shown, _, _, rfl⟩ := CodeFrame.renderLine_eq_ok_iff.mp hshown
      exact (append_newline_ne shown (String.append_eq_empty_iff.mp htext).2).elim
  | false =>
      rw [hframe, if_neg nofun] at h
      refine ⟨?_, rfl⟩
      by_contra hquiet
      have hline : fault.line = "" := (if_neg hquiet).symm.trans (Except.ok.inj h)
      exact append_newline_ne _ hline

end Command

namespace CommandLine

section
variable {command : Command} {options : Options} {loaded : LoadedProgram} {n : Nat}
variable {memory later : Memory}

theorem interpret_connected (hoptions : command.settings.prepare host = .ok options)
    {result : Option Verdict}
    (h : (interpretInMemory host command.settings loaded.program n).run memory =
      (.ok result, later)) :
    (interpret host (if command.quiet then Memory.streams.quiet else Memory.streams)
      command.settings loaded.program n).run memory =
        (.ok result, { later with
          errors := memory.errors.write (Utf8.encode (result.elim "" command.line)) }) := by
  obtain ⟨_, _, hrun, herrors⟩ :=
    interpretInMemory_of_prepared loaded.program n hoptions memory
  obtain ⟨⟨⟩, rfl⟩ := Prod.mk.inj (h.symm.trans hrun)
  cases hquiet : command.quiet with
  | true =>
      have hline : result.elim "" command.line = "" := by
        cases result <;> simp [Command.line, hquiet]
      have hstate := interpret_quiet host command.settings loaded.program n memory
      rw [h] at hstate
      rw [hline, Utf8.encode_empty, OutputBuffer.write_nil]
      exact hstate
  | false =>
      have hline : result.elim "" command.line = result.elim "" Verdict.line := by
        cases result <;> simp [Command.line, hquiet]
      rw [hline, ← herrors]
      exact h

theorem run_printFrame (loaded : LoadedProgram) (fault : Fault) (memory : Memory) :
    (printFrame Memory.streams loaded fault).run memory =
      match (Verdict.faulted fault).frame loaded with
      | .ok text => (.ok (), { memory with errors := memory.errors.write (Utf8.encode text) })
      | .error error => (.error error, memory) := by
  unfold printFrame Verdict.frame
  dsimp only
  cases CodeFrame.renderLine loaded.program fault loaded.name <;> rfl

/-- A verdict gives the exit code, and the log is what the command reports of the verdict. A
frame that cannot be shown is an error of the whole run. -/
theorem runLoaded_of_verdict (hoptions : command.settings.prepare host = .ok options)
    {verdict : Verdict}
    (h : (interpretInMemory host command.settings loaded.program n).run memory =
      (.ok (some verdict), later)) :
    (runLoaded host Memory.streams command loaded n).run memory =
      match command.diagnostics loaded verdict with
      | .ok text => (.ok (some verdict.exitCode),
          { later with errors := memory.errors.write (Utf8.encode text) })
      | .error error => (.error (.frame error),
          { later with errors := memory.errors.write (Utf8.encode (command.line verdict)) }) := by
  have hconnected := interpret_connected hoptions h
  unfold runLoaded Command.diagnostics
  dsimp only
  rw [StateT.run_bind, hconnected]
  cases verdict with
  | completed =>
      have hempty : Verdict.completed.frame loaded = .ok "" := rfl
      rw [hempty, Except.map, String.append_empty, ite_self]
      rfl
  | faulted fault =>
      cases command.frame with
      | false => rfl
      | true =>
          change StateT.run (printFrame Memory.streams loaded fault >>= fun shown =>
            pure (Outcome.ofFrame shown)) _ = _
          rw [StateT.run_bind, run_printFrame, if_pos rfl]
          cases (Verdict.faulted fault).frame loaded with
          | error error => rfl
          | ok frame =>
              dsimp only [Except.map]
              rw [Utf8.encode_append, ← OutputBuffer.write_write]
              rfl

/-- Without a verdict nothing is reported. -/
theorem runLoaded_of_running (hoptions : command.settings.prepare host = .ok options)
    (h : (interpretInMemory host command.settings loaded.program n).run memory =
      (.ok none, later)) :
    (runLoaded host Memory.streams command loaded n).run memory =
      (.ok none, { later with errors := memory.errors }) := by
  have hconnected := interpret_connected hoptions h
  unfold runLoaded
  dsimp only
  rw [StateT.run_bind, hconnected, Option.elim_none, Utf8.encode_empty, OutputBuffer.write_nil]
  rfl

/-- An execution that does not start leaves the memory as it was. -/
theorem runLoaded_of_error {error : StartError}
    (h : command.settings.prepare host = .error error) (loaded : LoadedProgram) (n : Nat)
    (memory : Memory) :
    (runLoaded host Memory.streams command loaded n).run memory =
      (.error (.start error), memory) := by
  unfold runLoaded
  dsimp only
  rw [interpret_of_error h, pure_bind]
  rfl

end

/-- The arguments ask for a program that can be loaded. -/
def Executes (files : FileAccess Id) (env : Environment) (arguments : List String)
    (command : Command) (loaded : LoadedProgram) : Prop :=
  Arguments.parse env arguments = .ok (.run command) ∧
    Id.run (command.source.load files) = .ok loaded

/-- How a run of the command line ends: its exit code, and what it leaves in memory. -/
inductive Ended (host : Host) (files : FileAccess Id) (env : Environment)
    (arguments : List String) (input : List UInt8) (budget : Nat) : ExitCode → Memory → Prop
  /-- The arguments make no sense. -/
  | misused {error : UsageError} : Arguments.parse env arguments = .error error →
      Ended host files env arguments input budget .failure { Memory.ofInput input with
        errors := .ofText (s!"error: {error.message}\n" ++ (usage ++ "\n")) }
  /-- The arguments ask for help. -/
  | helped : Arguments.parse env arguments = .ok .help →
      Ended host files env arguments input budget .success { Memory.ofInput input with
        output := .ofText (usage ++ "\n") }
  /-- The program cannot be loaded. -/
  | unloaded {command : Command} {error : LoadError} :
      Arguments.parse env arguments = .ok (.run command) →
      Id.run (command.source.load files) = .error error →
      Ended host files env arguments input budget .failure { Memory.ofInput input with
        errors := .ofText s!"error: {error.message}\n" }
  /-- The program is executed, and what the command reports of the verdict can be shown. -/
  | executed {command : Command} {loaded : LoadedProgram} {verdict : Verdict} {text : String}
      {later : Memory} : Executes files env arguments command loaded →
      (interpretInMemory host command.settings loaded.program budget).run (.ofInput input) =
        (.ok (some verdict), later) →
      command.diagnostics loaded verdict = .ok text →
      Ended host files env arguments input budget verdict.exitCode
        { later with errors := .ofText text }

section
variable {files : FileAccess Id} {env : Environment} {arguments : List String}
variable {input : List UInt8} {budget : Nat}

theorem run_of_usageError {error : UsageError}
    (h : Arguments.parse env arguments = .error error) :
    (run host Memory.streams files.lift env arguments budget).run (.ofInput input) =
      (.ok (some .failure), { Memory.ofInput input with
        errors := .ofText (s!"error: {error.message}\n" ++ (usage ++ "\n")) }) := by
  unfold run OutputBuffer.ofText
  rw [h, Utf8.encode_append, ← OutputBuffer.write_write]
  rfl

theorem run_of_help (h : Arguments.parse env arguments = .ok .help) :
    (run host Memory.streams files.lift env arguments budget).run (.ofInput input) =
      (.ok (some .success), { Memory.ofInput input with output := .ofText (usage ++ "\n") }) := by
  unfold run
  rw [h]
  rfl

theorem run_of_loadError {command : Command} {error : LoadError}
    (h : Arguments.parse env arguments = .ok (.run command))
    (hload : Id.run (command.source.load files) = .error error) :
    (run host Memory.streams files.lift env arguments budget).run (.ofInput input) =
      (.ok (some .failure), { Memory.ofInput input with
        errors := .ofText s!"error: {error.message}\n" }) := by
  unfold run
  rw [h]
  dsimp only
  rw [ProgramSource.load_lift, pure_bind, hload]
  rfl

theorem run_of_executes {command : Command} {loaded : LoadedProgram}
    (h : Executes files env arguments command loaded) :
    run host Memory.streams files.lift env arguments budget =
      runLoaded host Memory.streams command loaded budget := by
  unfold run
  rw [h.1]
  dsimp only
  rw [ProgramSource.load_lift, pure_bind, h.2]

/-- A report that cannot be shown is an error of the whole run. -/
theorem run_of_unshown {command : Command} {loaded : LoadedProgram} {verdict : Verdict}
    {later : Memory} {error : FrameError} (h : Executes files env arguments command loaded)
    (hrun : (interpretInMemory host command.settings loaded.program budget).run (.ofInput input) =
      (.ok (some verdict), later))
    (herror : command.diagnostics loaded verdict = .error error) :
    ((run host Memory.streams files.lift env arguments budget).run (.ofInput input)).1 =
      .error (.frame error) := by
  obtain ⟨options, hoptions⟩ := exists_prepare_of_memory _ _ hrun
  rw [run_of_executes h, runLoaded_of_verdict hoptions hrun, herror]

/-- An execution that has an exit code has started and come to a verdict that can be shown. -/
theorem ended_of_runLoaded {command : Command} {loaded : LoadedProgram} {exitCode : ExitCode}
    {memory : Memory} (hexecutes : Executes files env arguments command loaded)
    (h : (runLoaded host Memory.streams command loaded budget).run (.ofInput input) =
      (.ok (some exitCode), memory)) :
    Ended host files env arguments input budget exitCode memory := by
  cases hoptions : command.settings.prepare host with
  | error error =>
      rw [runLoaded_of_error hoptions] at h
      cases h
  | ok options =>
      obtain ⟨result, later, hrun, _⟩ :=
        interpretInMemory_of_prepared loaded.program budget hoptions (.ofInput input)
      cases result with
      | none =>
          rw [runLoaded_of_running hoptions hrun] at h
          cases h
      | some verdict =>
          rw [runLoaded_of_verdict hoptions hrun] at h
          cases htext : command.diagnostics loaded verdict with
          | error error =>
              rw [htext] at h
              cases h
          | ok text =>
              rw [htext] at h
              obtain ⟨⟨⟩, rfl⟩ := Prod.mk.inj h
              exact .executed hexecutes hrun htext

/-- A run that has an exit code has ended in one of the four ways. -/
theorem run_eq_ok_iff {exitCode : ExitCode} {memory : Memory} :
    (run host Memory.streams files.lift env arguments budget).run (.ofInput input) =
      (.ok (some exitCode), memory) ↔
        Ended host files env arguments input budget exitCode memory := by
  constructor
  · intro h
    rcases hparse : Arguments.parse env arguments with error | _ | command
    · obtain ⟨⟨⟩, rfl⟩ := Prod.mk.inj ((run_of_usageError hparse).symm.trans h)
      exact .misused hparse
    · obtain ⟨⟨⟩, rfl⟩ := Prod.mk.inj ((run_of_help hparse).symm.trans h)
      exact .helped hparse
    · cases hload : Id.run (command.source.load files) with
      | error error =>
          obtain ⟨⟨⟩, rfl⟩ := Prod.mk.inj ((run_of_loadError hparse hload).symm.trans h)
          exact .unloaded hparse hload
      | ok loaded =>
          rw [run_of_executes ⟨hparse, hload⟩] at h
          exact ended_of_runLoaded ⟨hparse, hload⟩ h
  · intro h
    cases h with
    | misused hparse => exact run_of_usageError hparse
    | helped hparse => exact run_of_help hparse
    | unloaded hparse hload => exact run_of_loadError hparse hload
    | executed hexecutes hrun htext =>
        obtain ⟨options, hoptions⟩ := exists_prepare_of_memory _ _ hrun
        rw [run_of_executes hexecutes, runLoaded_of_verdict hoptions hrun, htext]
        rfl

variable {exitCode : ExitCode} {memory : Memory}

theorem Ended.exists_verdict {command : Command} {loaded : LoadedProgram}
    (h : Ended host files env arguments input budget exitCode memory)
    (hexecutes : Executes files env arguments command loaded) :
    ∃ verdict later,
      (interpretInMemory host command.settings loaded.program budget).run (.ofInput input) =
        (.ok (some verdict), later) ∧
      exitCode = verdict.exitCode ∧ memory.output = later.output ∧
      memory.input = later.input := by
  obtain ⟨hparse, hload⟩ := hexecutes
  cases h with
  | misused hparse' => cases hparse.symm.trans hparse'
  | helped hparse' => cases hparse.symm.trans hparse'
  | unloaded hparse' hload' =>
      cases hparse.symm.trans hparse'
      cases hload.symm.trans hload'
  | executed hexecutes' hrun htext =>
      cases hparse.symm.trans hexecutes'.1
      cases hload.symm.trans hexecutes'.2
      exact ⟨_, _, hrun, rfl, rfl, rfl⟩

/-- Only help and a program that completed are a success. -/
theorem Ended.success_iff (h : Ended host files env arguments input budget exitCode memory) :
    exitCode = .success ↔ Arguments.parse env arguments = .ok .help ∨
      ∃ command loaded, Executes files env arguments command loaded ∧
        command.outcome host loaded input budget = .ok (some .completed) := by
  constructor
  · intro hsuccess
    cases h with
    | misused hparse => cases hsuccess
    | helped hparse => exact .inl hparse
    | unloaded hparse hload => cases hsuccess
    | @executed command loaded verdict text later hexecutes hrun htext =>
        cases verdict with
        | completed => exact .inr ⟨command, loaded, hexecutes, congrArg Prod.fst hrun⟩
        | faulted fault => cases hsuccess
  · intro hends
    rcases hends with hparse | ⟨command, loaded, hexecutes, houtcome⟩
    · have hrun := (run_of_help hparse).symm.trans (run_eq_ok_iff.mpr h)
      exact (Option.some.inj (Except.ok.inj (congrArg Prod.fst hrun))).symm
    · obtain ⟨verdict, later, hrun, rfl, _⟩ := h.exists_verdict hexecutes
      obtain ⟨⟩ := (congrArg Prod.fst hrun).symm.trans houtcome
      rfl

theorem Ended.errors_of_success (h : Ended host files env arguments input budget exitCode memory)
    (hsuccess : exitCode = .success) : memory.errors.bytes = [] := by
  cases h with
  | misused hparse => cases hsuccess
  | helped hparse => rfl
  | unloaded hparse hload => cases hsuccess
  | @executed command loaded verdict text later hexecutes hrun htext =>
      cases verdict with
      | completed =>
          obtain rfl : "" = text := Except.ok.inj (Command.diagnostics_completed.symm.trans htext)
          rfl
      | faulted fault => cases hsuccess

/-- A failure without a diagnostic is a fault that was to be passed over in silence. -/
theorem Ended.exists_fault (h : Ended host files env arguments input budget exitCode memory)
    (hfailure : exitCode = .failure) (hsilent : memory.errors.bytes = []) :
    ∃ command loaded fault, Executes files env arguments command loaded ∧
      command.quiet = true ∧ command.frame = false ∧
      command.outcome host loaded input budget = .ok (some (.faulted fault)) := by
  cases h with
  | misused hparse =>
      have hempty := OutputBuffer.bytes_ofText_eq_nil_iff.mp hsilent
      exact (append_newline_ne usage (String.append_eq_empty_iff.mp hempty).2).elim
  | helped hparse => cases hfailure
  | unloaded hparse hload =>
      exact (append_newline_ne _ (OutputBuffer.bytes_ofText_eq_nil_iff.mp hsilent)).elim
  | @executed command loaded verdict text later hexecutes hrun htext =>
      cases verdict with
      | completed => cases hfailure
      | faulted fault =>
          obtain rfl := OutputBuffer.bytes_ofText_eq_nil_iff.mp hsilent
          obtain ⟨hquiet, hframe⟩ := Command.quiet_of_diagnostics htext
          exact ⟨command, loaded, fault, hexecutes, hquiet, hframe, congrArg Prod.fst hrun⟩

/-- Without an execution no input is read, and only help is printed. -/
theorem Ended.untouched (h : Ended host files env arguments input budget exitCode memory)
    (hnone : ∀ command loaded, ¬ Executes files env arguments command loaded) :
    memory.input.unread = input ∧
      (Arguments.parse env arguments ≠ .ok .help → memory.output.bytes = []) := by
  cases h with
  | misused hparse => exact ⟨rfl, fun _ => rfl⟩
  | helped hparse => exact ⟨rfl, fun hother => (hother hparse).elim⟩
  | unloaded hparse hload => exact ⟨rfl, fun _ => rfl⟩
  | executed hexecutes hrun htext => exact (hnone _ _ hexecutes).elim

end

end CommandLine

/-- The contract of the command line. A run succeeds exactly if it was asked for help or its
program completed, and then the error log is empty. A failure with an empty error log is a
fault under a quiet command that asks for no frame. Without an execution no input is read, and
nothing but help is printed. Once a program is loaded, the quiet and the frame switch have a
say in the error log only: under all four settings the exit code, the output and the unread
input are the same, and the log is the line of the verdict, unless the command is quiet,
followed by the frame, if it asks for one. There is a frame if three times the program, its name
and a few words are no longer than the greatest text; where there is none, the runs that ask for
it fail with the error of the frame. -/
theorem exit_code_and_diagnostics {files : FileAccess Id} {env : Environment}
    {arguments : List String} {input : List UInt8} {budget : Nat} {exitCode : ExitCode}
    {memory : Memory}
    (h : (CommandLine.run host Memory.streams files.lift env arguments budget).run
      (.ofInput input) = (.ok (some exitCode), memory)) :
    (exitCode = .success ↔ Arguments.parse env arguments = .ok .help ∨
      ∃ command loaded, CommandLine.Executes files env arguments command loaded ∧
        command.outcome host loaded input budget = .ok (some .completed)) ∧
    (exitCode = .success → memory.errors.bytes = []) ∧
    (exitCode = .failure → memory.errors.bytes = [] →
      ∃ command loaded fault, CommandLine.Executes files env arguments command loaded ∧
        command.quiet = true ∧ command.frame = false ∧
        command.outcome host loaded input budget = .ok (some (.faulted fault))) ∧
    ((∀ command loaded, ¬ CommandLine.Executes files env arguments command loaded) →
      memory.input.unread = input ∧
        (Arguments.parse env arguments ≠ .ok .help → memory.output.bytes = [])) ∧
    ∀ command loaded, CommandLine.Executes files env arguments command loaded →
      ∃ verdict, command.outcome host loaded input budget = .ok (some verdict) ∧
        exitCode = verdict.exitCode ∧
        (3 * loaded.program.size + Utf16.length loaded.name.toList + 256 ≤ Utf16.maxLength →
          ∃ frame, verdict.frame loaded = .ok frame) ∧
        ∀ env' arguments' quiet frame, Arguments.parse env' arguments' =
            .ok (.run { command with quiet := quiet, frame := frame }) →
          (∀ text, Command.diagnostics { command with quiet := quiet, frame := frame }
              loaded verdict = .ok text →
            ∃ memory', (CommandLine.run host Memory.streams files.lift env' arguments' budget).run
                (.ofInput input) = (.ok (some exitCode), memory') ∧
              memory'.output.bytes = memory.output.bytes ∧
              memory'.input.unread = memory.input.unread ∧
              memory'.errors.bytes = Utf8.encode text) ∧
          ∀ error, Command.diagnostics { command with quiet := quiet, frame := frame }
              loaded verdict = .error error →
            ((CommandLine.run host Memory.streams files.lift env' arguments' budget).run
              (.ofInput input)).1 = .error (.frame error) := by
  have hended := CommandLine.run_eq_ok_iff.mp h
  refine ⟨hended.success_iff, hended.errors_of_success, hended.exists_fault, hended.untouched, ?_⟩
  intro command loaded hexecutes
  obtain ⟨verdict, later, hrun, rfl, houtput, hinput⟩ := hended.exists_verdict hexecutes
  obtain ⟨options, hoptions⟩ := exists_prepare_of_memory _ _ hrun
  refine ⟨verdict, congrArg Prod.fst hrun, rfl, ?_, ?_⟩
  · intro hsize
    cases verdict with
    | completed => exact ⟨"", rfl⟩
    | faulted fault =>
        obtain ⟨pc, hposition, hinstruction⟩ := exists_instruction_in_memory hoptions hrun
        exact CodeFrame.exists_renderLine hposition hinstruction hsize
  · intro env' arguments' quiet frame hparse
    have hexecutes' : CommandLine.Executes files env' arguments'
      { command with quiet := quiet, frame := frame } loaded := ⟨hparse, hexecutes.2⟩
    constructor
    · intro text htext
      refine ⟨_, CommandLine.run_eq_ok_iff.mpr (.executed hexecutes' hrun htext), ?_, ?_, ?_⟩
      · rw [houtput]
      · rw [hinput]
      · exact OutputBuffer.bytes_ofText text
    · intro error herror
      exact CommandLine.run_of_unshown hexecutes' hrun herror

/-- A byte is echoed before the program leaves the tape. A quiet command says nothing about
it, and one that asks for a frame prints the line and the frame and is otherwise the same. -/
theorem diagnostics_of_echo_and_fault :
    let host := Host.upTo 1024
    let files : FileAccess Id := FileSystem.empty.access
    let quiet := ["--tape-length", "2", "-q", "-e", ",.<"]
    let framed := ["--tape-length", "2", "--frame", "-e", ",.<"]
    let fault := Fault.outOfBounds 2 .left
    ∃ memory, (CommandLine.run host Memory.streams files.lift (fun _ => none) quiet 5).run
        (.ofInput [7, 9]) = (.ok (some .failure), memory) ∧
      memory.output.bytes = [7] ∧ memory.input.unread = [9] ∧ memory.errors.bytes = [] ∧
      (∃ command loaded fault, CommandLine.Executes files (fun _ => none) quiet command loaded ∧
        command.quiet = true ∧ command.frame = false ∧
        command.outcome host loaded [7, 9] 5 = .ok (some (.faulted fault))) ∧
      ∃ memory' shown, (Verdict.faulted fault).frame ⟨"<eval>", Program.ofText ",.<"⟩ = .ok shown ∧
        (CommandLine.run host Memory.streams files.lift (fun _ => none) framed 5).run
          (.ofInput [7, 9]) = (.ok (some .failure), memory') ∧
        memory'.output.bytes = [7] ∧ memory'.input.unread = [9] ∧
        memory'.errors.bytes = Utf8.encode (fault.line ++ shown) := by
  intro host files quiet framed fault
  have hrun : (CommandLine.run host Memory.streams files.lift (fun _ => none) quiet 5).run
      (.ofInput [7, 9]) = (.ok (some .failure), ⟨⟨[9]⟩, ⟨#[7]⟩, ⟨#[]⟩⟩) := rfl
  obtain ⟨_, _, hsilent, _, hswitches⟩ := exit_code_and_diagnostics hrun
  obtain ⟨verdict, houtcome, _, hframe, hsettings⟩ := hswitches _ _ ⟨rfl, rfl⟩
  obtain rfl : .faulted fault = verdict := Option.some.inj (Except.ok.inj houtcome)
  obtain ⟨shown, hshown⟩ := hframe (by decide +kernel)
  obtain ⟨hends, _⟩ := hsettings (fun _ => none) framed false true rfl
  obtain ⟨memory', hrun', houtput, hinput, herrors⟩ :=
    hends _ (congrArg (Except.map (fault.line ++ ·)) hshown)
  exact ⟨_, hrun, rfl, rfl, rfl, hsilent rfl rfl, memory', shown, hshown, hrun', houtput, hinput,
    herrors⟩

end Brainfuck
