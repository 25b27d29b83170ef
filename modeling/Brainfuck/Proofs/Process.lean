import Brainfuck.Proofs.Descriptors
import Brainfuck.Proofs.Simulation

/-!
# A process and its transcript

A process writes its output and its diagnostics through two writers with their own pending
bytes to one transcript, and nothing flushes them when it exits. The command line is
followed on a process and in memory at once, through the phases that the two go through
together. While output is printed, the transcript and the pending output are the output in
memory, and there are no diagnostics. Once the output has been flushed, nothing is pending.
A line of diagnostics is written in this phase only and flushed right away, so it lands
behind all output and nothing is pending again.
-/
namespace Brainfuck

open Brainfuck.Bracket

variable {host : Host}

namespace Console

variable {ε τ α β : Type}

/-- What a process does: it may fail, and it holds a console over the state of a system. -/
abbrev Effects (ε τ : Type) := ExceptT ε (StateT (Console ε) (StateM τ))

/-- Runs a process from a console and a state of the system. -/
def runFrom (x : Effects ε τ α) (console : Console ε) (s : τ) :
    (Except ε α × Console ε) × τ :=
  (x.run.run console).run s

variable {c c₁ c₂ : Console ε} {s s₁ s₂ : τ} {a : α}

theorem runFrom_bind {x : Effects ε τ α} {f : α → Effects ε τ β}
    (h : runFrom x c s = ((.ok a, c₁), s₁)) : runFrom (x >>= f) c s = runFrom (f a) c₁ s₁ := by
  change ExceptT.bindCont f (x c s).1.1 (x c s).1.2 (x c s).2 = _
  rw [show x c s = ((.ok a, c₁), s₁) from h]
  rfl

theorem runFrom_tryFinally {x : Effects ε τ α} {y : Effects ε τ Unit}
    (h : runFrom x c s = ((.ok a, c₁), s₁)) (h' : runFrom y c₁ s₁ = ((.ok (), c₂), s₂)) :
    runFrom (tryFinally x y) c s = ((.ok a, c₂), s₂) := by
  change (tryFinally x y : Effects ε τ α) c s = _
  have hx : x c s = ((.ok a, c₁), s₁) := h
  have hy : y c₁ s₁ = ((.ok (), c₂), s₂) := h'
  simp only [tryFinally, tryFinally', ExceptT.mk, bind, StateT.bind, Functor.map, ExceptT.map,
    hx, hy]
  rfl

end Console

/-- From states that satisfy `P`, a process does what a computation in memory does, without
an error, and their states satisfy `Q` afterwards. -/
def Refines {ε τ α : Type} (P Q : Memory → Console ε → τ → Prop) (x : StateM Memory α)
    (y : Console.Effects ε τ α) : Prop :=
  ∀ memory console s, P memory console s → ∃ console' s',
    Console.runFrom y console s = ((.ok (x memory).1, console'), s') ∧
      Q (x memory).2 console' s'

namespace Refines

variable {ε τ α β : Type} {P Q R : Memory → Console ε → τ → Prop}

theorem pure (a : α) : Refines P P (pure a) (pure a : Console.Effects ε τ α) := by
  intro memory console s h
  exact ⟨console, s, rfl, h⟩

theorem bind {x : StateM Memory α} {y : Console.Effects ε τ α} {f : α → StateM Memory β}
    {g : α → Console.Effects ε τ β} (h : Refines P Q x y) (hfg : ∀ a, Refines Q R (f a) (g a)) :
    Refines P R (x >>= f) (y >>= g) := by
  intro memory console s hP
  obtain ⟨console₁, s₁, hy, hQ⟩ := h memory console s hP
  obtain ⟨console₂, s₂, hg, hR⟩ := hfg _ _ _ _ hQ
  refine ⟨console₂, s₂, ?_, hR⟩
  rw [Console.runFrom_bind hy]
  exact hg

theorem tryFinally {x : StateM Memory α} {y : Console.Effects ε τ α} {f : StateM Memory Unit}
    {g : Console.Effects ε τ Unit} (h : Refines P Q x y) (hfg : Refines Q R f g) :
    Refines P R (tryFinally x f) (tryFinally y g) := by
  intro memory console s hP
  obtain ⟨console₁, s₁, hy, hQ⟩ := h memory console s hP
  obtain ⟨console₂, s₂, hg, hR⟩ := hfg _ _ _ hQ
  exact ⟨console₂, s₂, Console.runFrom_tryFinally hy hg, hR⟩

theorem mono {P' Q' : Memory → Console ε → τ → Prop} {x : StateM Memory α}
    {y : Console.Effects ε τ α} (h : Refines P Q x y)
    (hP : ∀ {memory console s}, P' memory console s → P memory console s)
    (hQ : ∀ {memory console s}, Q memory console s → Q' memory console s) :
    Refines P' Q' x y := by
  intro memory console s hP'
  obtain ⟨console', s', hy, hQ'⟩ := h memory console s (hP hP')
  exact ⟨console', s', hy, hQ hQ'⟩

end Refines

/-- Loading from files whose answers are given needs no effects. -/
theorem ProgramSource.load_lift {m : Type → Type} [Monad m] [LawfulMonad m]
    (files : FileAccess Id) (source : ProgramSource) :
    source.load (files.lift : FileAccess m) = pure (Id.run (source.load files)) := by
  cases source with
  | literal text => rfl
  | file path limit =>
      obtain ⟨size, hsize⟩ : ∃ size, files.size path = pure size := ⟨_, rfl⟩
      obtain ⟨contents, hcontents⟩ : ∃ contents, files.contents path = pure contents := ⟨_, rfl⟩
      simp only [load, FileAccess.lift, hsize, hcontents, Id.run_pure, pure_bind]
      split
      · rfl
      · cases size with
        | error error => rfl
        | ok size =>
            dsimp only
            split
            · rfl
            · cases contents <;> rfl

namespace Process

variable {ε τ : Type}

/-- Output is being printed. There are no diagnostics yet. -/
structure Printing (At : τ → List UInt8 → List UInt8 → Prop) (memory : Memory)
    (console : Console ε) (s : τ) : Prop where
  unreported : memory.errors.bytes = []
  errors : console.errors.Idle
  written : ∃ rest, console.reader.Leads rest memory.input.unread ∧
    console.output.Holds (fun s transcript => At s rest transcript) s memory.output.bytes

/-- A line of diagnostics is being written. No output is pending. -/
structure Reporting (At : τ → List UInt8 → List UInt8 → Prop) (memory : Memory)
    (console : Console ε) (s : τ) : Prop where
  output : console.output.Idle
  written : ∃ rest, console.reader.Leads rest memory.input.unread ∧
    console.errors.Holds (fun s transcript => At s rest transcript) s
      (memory.output.bytes ++ memory.errors.bytes)

/-- Nothing is pending. The transcript is the output and the diagnostics behind it. -/
structure Settled (At : τ → List UInt8 → List UInt8 → Prop) (memory : Memory)
    (console : Console ε) (s : τ) : Prop where
  output : console.output.Idle
  errors : console.errors.Idle
  written : ∃ rest, console.reader.Leads rest memory.input.unread ∧
    At s rest (memory.output.bytes ++ memory.errors.bytes)

/-- Nothing is pending, and there are no diagnostics yet. -/
def Fresh (At : τ → List UInt8 → List UInt8 → Prop) (memory : Memory) (console : Console ε)
    (s : τ) : Prop :=
  Printing At memory console s ∧ Settled At memory console s

section
variable {system : ConsoleSystem ε (StateM τ)} {At : τ → List UInt8 → List UInt8 → Prop}

theorem read_refines (h : system.Serves At) :
    Refines (Printing At) (Printing At) Memory.streams.read (Console.streams system).read := by
  intro memory console s hs
  obtain ⟨hunreported, hidle, rest, hleads, hcounted, transcript, hat, htotal⟩ := hs
  obtain ⟨reader', rest', s', hread, hleads', hat'⟩ := hleads.read (h.fetch transcript) hat
  refine ⟨⟨reader', console.output, console.errors⟩, s', ?_, hunreported, hidle, rest', hleads',
    hcounted, transcript, hat', htotal⟩
  exact bind_of_yields hread

theorem outWrite_refines (h : system.Serves At) (bytes : List UInt8) :
    Refines (Printing At) (Printing At) (Memory.streams.out.write bytes)
      ((Console.streams system).out.write bytes) := by
  intro memory console s hs
  obtain ⟨hunreported, hidle, rest, hleads, hholds⟩ := hs
  obtain ⟨output', s', hwrite, hholds'⟩ := hholds.write (h.output rest) bytes
  refine ⟨⟨console.reader, output', console.errors⟩, s', ?_, hunreported, hidle, rest, hleads, ?_⟩
  · exact bind_of_yields hwrite
  · rw [Memory.streams_out_write, OutputBuffer.bytes_write]
    exact hholds'

/-- A flush ends the printing of output for the time being. -/
theorem outFlush_refines (h : system.Serves At) :
    Refines (Printing At) (Fresh At) Memory.streams.out.flush
      (Console.streams system).out.flush := by
  intro memory console s hs
  obtain ⟨hunreported, hidle, rest, hleads, hholds⟩ := hs
  obtain ⟨output', s', hflush, hidle', hat⟩ := hholds.flush (h.output rest)
  refine ⟨⟨console.reader, output', console.errors⟩, s', bind_of_yields hflush, ?_, ?_⟩
  · exact ⟨hunreported, hidle, rest, hleads, hidle'.holds hat⟩
  · refine ⟨hidle', hidle, rest, hleads, ?_⟩
    rw [show (Memory.streams.out.flush memory).2 = memory from rfl, hunreported, List.append_nil]
    exact hat

/-- Nothing is pending, and a flush does nothing. -/
theorem outFlush_settled (h : system.Serves At) :
    Refines (Settled At) (Settled At) Memory.streams.out.flush
      (Console.streams system).out.flush := by
  intro memory console s hs
  obtain ⟨hidle, herrors, rest, hleads, hat⟩ := hs
  have hholds : console.output.Holds (fun s transcript => At s rest transcript) s _ :=
    hidle.holds hat
  obtain ⟨output', s', hflush, hidle', hat'⟩ := hholds.flush (h.output rest)
  exact ⟨⟨console.reader, output', console.errors⟩, s', bind_of_yields hflush, hidle', herrors,
    rest, hleads, hat'⟩

theorem logWrite_refines (h : system.Serves At) (bytes : List UInt8) :
    Refines (Settled At) (Reporting At) (Memory.streams.log.write bytes)
      ((Console.streams system).log.write bytes) := by
  intro memory console s hs
  obtain ⟨hidle, herrors, rest, hleads, hat⟩ := hs
  have hholds : console.errors.Holds (fun s transcript => At s rest transcript) s _ :=
    herrors.holds hat
  obtain ⟨errors', s', hwrite, hholds'⟩ := hholds.write (h.errors rest) bytes
  refine ⟨⟨console.reader, console.output, errors'⟩, s', bind_of_yields hwrite, hidle, rest,
    hleads, ?_⟩
  rw [Memory.streams_log_write, OutputBuffer.bytes_write, ← List.append_assoc]
  exact hholds'

theorem logFlush_refines (h : system.Serves At) :
    Refines (Reporting At) (Settled At) Memory.streams.log.flush
      (Console.streams system).log.flush := by
  intro memory console s hs
  obtain ⟨hidle, rest, hleads, hholds⟩ := hs
  obtain ⟨errors', s', hflush, herrors, hat⟩ := hholds.flush (h.errors rest)
  exact ⟨⟨console.reader, console.output, errors'⟩, s', bind_of_yields hflush, hidle, herrors,
    rest, hleads, hat⟩

end

/-- Streams in memory and streams of a process that keep to the phases. A line is written to
the log when nothing is pending, and it is flushed at once. -/
structure Connected (At : τ → List UInt8 → List UInt8 → Prop) (streams : Streams (StateM Memory))
    (streams' : Streams (Console.Effects ε τ)) : Prop where
  read : Refines (Printing At) (Printing At) streams.read streams'.read
  write : ∀ bytes, Refines (Printing At) (Printing At) (streams.out.write bytes)
    (streams'.out.write bytes)
  flush : Refines (Printing At) (Fresh At) streams.out.flush streams'.out.flush
  flushAgain : Refines (Settled At) (Settled At) streams.out.flush streams'.out.flush
  log : ∀ bytes, Refines (Settled At) (Settled At)
    (streams.log.write bytes >>= fun _ => streams.log.flush)
    (streams'.log.write bytes >>= fun _ => streams'.log.flush)

theorem connected_streams {system : ConsoleSystem ε (StateM τ)}
    {At : τ → List UInt8 → List UInt8 → Prop} (h : system.Serves At) :
    Connected At Memory.streams (Console.streams system) where
  read := read_refines h
  write := outWrite_refines h
  flush := outFlush_refines h
  flushAgain := outFlush_settled h
  log bytes := (logWrite_refines h bytes).bind fun _ => logFlush_refines h

/-- Printing output, as a simulation. -/
def printing (ε : Type) (At : τ → List UInt8 → List UInt8 → Prop) :
    Simulation (StateM Memory) (Console.Effects ε τ) where
  Rel V x y := ∀ memory console s, Printing At memory console s → ∃ a console' s',
    Console.runFrom y console s = ((.ok a, console'), s') ∧ V (x memory).1 a ∧
      Printing At (x memory).2 console' s'
  pure h _ console s hs := ⟨_, console, s, rfl, h, hs⟩
  bind _ hx hfg := by
    intro memory console s hs
    obtain ⟨a, console₁, s₁, hy, hab, hs₁⟩ := hx memory console s hs
    obtain ⟨b, console₂, s₂, hg, hb, hs₂⟩ := hfg _ a hab _ _ _ hs₁
    refine ⟨b, console₂, s₂, ?_, hb, hs₂⟩
    rw [Console.runFrom_bind hy]
    exact hg

section
variable {At : τ → List UInt8 → List UInt8 → Prop} {streams : Streams (StateM Memory)}
variable {streams' : Streams (Console.Effects ε τ)}

theorem Connected.quiet (h : Connected At streams streams') :
    Connected At streams.quiet streams'.quiet :=
  { h with log := fun _ => (Refines.pure ()).bind fun _ => Refines.pure () }

theorem Connected.related (h : Connected At streams streams') (w : Nat) :
    streams.Related (printing ε At) w streams' where
  read memory console s hs := by
    obtain ⟨console', s', hread, hs'⟩ := h.read memory console s hs
    exact ⟨_, console', s', hread, SameCell.refl w _, hs'⟩
  out :=
    { write := fun bytes memory console s hs => by
        obtain ⟨console', s', hwrite, hs'⟩ := h.write bytes memory console s hs
        exact ⟨_, console', s', hwrite, rfl, hs'⟩
      flush := fun memory console s hs => by
        obtain ⟨console', s', hflush, hs'⟩ := h.flush memory console s hs
        exact ⟨_, console', s', hflush, rfl, hs'.1⟩ }

theorem Connected.runFor (h : Connected At streams streams') {w : Nat} (p : Program)
    (brackets : Matcher) (n : Nat) (machine : Machine w) :
    Refines (Printing At) (Printing At) (Execution.runFor streams p brackets n machine)
      (Execution.runFor streams' p brackets n machine) := by
  intro memory console s hs
  obtain ⟨_, console', s', hrun, rfl, hs'⟩ :=
    Execution.rel_runFor (h.related w) p brackets n machine memory console s hs
  exact ⟨console', s', hrun, hs'⟩

/-- A fault is reported when the output has been flushed. -/
theorem Connected.conclude (h : Connected At streams streams') {w : Nat} (progress : Progress w) :
    Refines (Printing At) (fun memory console s =>
        Printing At memory console s ∨ Settled At memory console s)
      (Execution.conclude streams progress) (Execution.conclude streams' progress) := by
  cases progress with
  | running machine => exact (Refines.pure none).mono id Or.inl
  | stopped verdict final =>
      cases verdict with
      | completed => exact (Refines.pure (some Verdict.completed)).mono id Or.inl
      | faulted fault =>
          have hflush := h.flush.mono id And.right
          have hreport := hflush.bind fun _ => h.log (Utf8.encode fault.line)
          exact (hreport.bind fun _ => Refines.pure (some (Verdict.faulted fault))).mono id Or.inr

/-- The last flush leaves nothing pending, whether a fault has been reported or not. -/
theorem Connected.lastFlush (h : Connected At streams streams') :
    Refines (fun memory console s => Printing At memory console s ∨ Settled At memory console s)
      (Settled At) streams.out.flush streams'.out.flush := by
  intro memory console s hs
  rcases hs with hprinting | hsettled
  · exact h.flush.mono id And.right memory console s hprinting
  · exact h.flushAgain memory console s hsettled

theorem Connected.interpret (h : Connected At streams streams') (settings : Settings)
    (p : Program) (n : Nat) :
    Refines (Fresh At) (Settled At) (interpret host streams settings p n)
      (interpret host streams' settings p n) := by
  unfold Brainfuck.interpret
  cases settings.prepare host with
  | error error => exact (Refines.pure (Except.error error)).mono And.right id
  | ok options =>
      have hattempt := (h.runFor p (options.brackets.matcher p) n
        (Machine.initial options.tape)).bind h.conclude
      have hexecute := hattempt.tryFinally h.lastFlush
      dsimp only
      rw [map_eq_pure_bind, map_eq_pure_bind]
      exact (hexecute.bind fun result => Refines.pure (Except.ok result)).mono And.left id

theorem Connected.printText (h : Connected At streams streams') (text : String) :
    Refines (Settled At) (Settled At) (CommandLine.printText streams.log text)
      (CommandLine.printText streams'.log text) :=
  h.log (Utf8.encode text)

theorem Connected.printLine (h : Connected At streams streams') (text : String) :
    Refines (Settled At) (Settled At) (CommandLine.printLine streams.log text)
      (CommandLine.printLine streams'.log text) :=
  h.printText (text ++ "\n")

theorem Connected.printFrame (h : Connected At streams streams') (loaded : LoadedProgram)
    (fault : Fault) :
    Refines (Settled At) (Settled At) (CommandLine.printFrame streams loaded fault)
      (CommandLine.printFrame streams' loaded fault) := by
  unfold CommandLine.printFrame
  cases CodeFrame.renderLine loaded.program fault loaded.name with
  | ok text => exact (h.printText text).bind fun _ => Refines.pure (Except.ok ())
  | error error => exact Refines.pure (Except.error error)

theorem Connected.runLoaded (h : Connected At streams streams') (command : Command)
    (loaded : LoadedProgram) (n : Nat) :
    Refines (Fresh At) (Settled At) (CommandLine.runLoaded host streams command loaded n)
      (CommandLine.runLoaded host streams' command loaded n) := by
  unfold CommandLine.runLoaded
  apply Refines.bind (Q := Settled At)
  · cases command.quiet with
    | true => exact h.quiet.interpret command.settings loaded.program n
    | false => exact h.interpret command.settings loaded.program n
  · intro result
    rcases result with error | _ | _ | fault
    · exact Refines.pure _
    · exact Refines.pure _
    · exact Refines.pure _
    · cases command.frame with
      | true =>
          exact (h.printFrame loaded fault).bind fun shown =>
            Refines.pure (CommandLine.Outcome.ofFrame shown)
      | false => exact Refines.pure _

theorem load_refines (files : FileAccess Id) (source : ProgramSource) :
    Refines (Fresh At) (Fresh At) (source.load files.lift)
      (source.load files.lift : Console.Effects ε τ _) := by
  rw [ProgramSource.load_lift (m := StateM Memory),
    ProgramSource.load_lift (m := Console.Effects ε τ)]
  exact Refines.pure _

theorem Connected.run (h : Connected At streams streams') (files : FileAccess Id)
    (env : Environment) (arguments : List String) (n : Nat) :
    Refines (Fresh At) (Settled At)
      (CommandLine.run host streams files.lift env arguments n)
      (CommandLine.run host streams' files.lift env arguments n) := by
  unfold CommandLine.run
  rcases Arguments.parse env arguments with error | _ | command
  · have husage := (h.printLine CommandLine.usage).bind fun _ =>
      Refines.pure (Except.ok (some ExitCode.failure) : CommandLine.Outcome)
    exact ((h.printLine _).bind fun _ => husage).mono And.right id
  · have hline := (h.write (Utf8.encode (CommandLine.usage ++ "\n"))).bind fun _ => h.flush
    have hhelp := hline.bind fun _ =>
      Refines.pure (Except.ok (some ExitCode.success) : CommandLine.Outcome)
    exact hhelp.mono And.left And.right
  · apply (load_refines files command.source).bind
    intro result
    rcases result with error | loaded
    · have hline := (h.printLine s!"error: {error.message}").bind fun _ =>
        Refines.pure (Except.ok (some ExitCode.failure) : CommandLine.Outcome)
      exact hline.mono And.right id
    · exact h.runLoaded command loaded n

/-- A new process has printed nothing. -/
theorem fresh_initial {s : τ} {input : List UInt8} (hs : At s input []) (outputIsTerminal : Bool) :
    Fresh At (.ofInput input) (Console.initial outputIsTerminal : Console ε) s := by
  have hreader : (Console.initial outputIsTerminal : Console ε).reader.Leads input input :=
    ⟨rfl, nofun⟩
  constructor
  · exact ⟨rfl, ⟨rfl, rfl⟩, input, hreader, rfl, [], hs, rfl⟩
  · exact ⟨⟨rfl, rfl⟩, ⟨rfl, rfl⟩, input, hreader, hs⟩

/-- A process over a system that serves settles. -/
theorem exists_run {system : ConsoleSystem ε (StateM τ)} (h : system.Serves At) {s : τ}
    {input : List UInt8} (hs : At s input []) (outputIsTerminal : Bool) {files : FileAccess Id}
    {env : Environment} {arguments : List String} {n : Nat} {outcome : CommandLine.Outcome}
    {memory : Memory}
    (hmain : (CommandLine.run host Memory.streams files.lift env arguments n).run
      (.ofInput input) = (outcome, memory)) :
    ∃ console s' unread,
      Console.runFrom (CommandLine.run host (Console.streams system) files.lift env arguments n)
        (.initial outputIsTerminal) s = ((.ok outcome, console), s') ∧
      At s' unread (memory.output.bytes ++ memory.errors.bytes) ∧
      console.output.Idle ∧ console.errors.Idle := by
  obtain ⟨console, s', hrun, hsettled⟩ :=
    (connected_streams h).run files env arguments n _ _ _ (fresh_initial hs outputIsTerminal)
  rw [show CommandLine.run host Memory.streams files.lift env arguments n (.ofInput input) =
    (outcome, memory) from hmain] at hrun hsettled
  obtain ⟨unread, _, hat⟩ := hsettled.written
  exact ⟨console, s', unread, hrun, hat, hsettled.output, hsettled.errors⟩

theorem runProcess_eq {files : FileAccess Id} {env : Environment} {arguments : List String}
    {input : List UInt8} {n : Nat} {exitCode : Option ExitCode} {memory : Memory}
    (hmain : (CommandLine.run host Memory.streams files.lift env arguments n).run
      (.ofInput input) = (.ok exitCode, memory)) :
    runProcess host files env arguments input n =
      ⟨exitCode, memory.output.bytes ++ memory.errors.bytes⟩ := by
  obtain ⟨console, terminal, unread, hrun, hshows, _⟩ :=
    exists_run Terminal.serves (Terminal.shows_ofInput input) false hmain
  unfold Console.runFrom at hrun
  unfold runProcess
  dsimp only
  rw [hrun]
  exact congrArg (ProcessReport.mk exitCode) hshows.transcript

end

end Process

/-- A process over a system whose calls succeed does what the command line does in memory. It
comes out the same, the transcript is all output followed by all diagnostics, and nothing is
left pending. Reads may return less than a block and writes may accept less than they are
offered. The process whose files are in memory is one of these: where the command line returns
an exit code, it ends with that code and this transcript. -/
theorem process_refines_command_line {ε τ : Type} {system : ConsoleSystem ε (StateM τ)}
    {At : τ → List UInt8 → List UInt8 → Prop} (h : system.Serves At) {s : τ} {input : List UInt8}
    (hs : At s input []) (outputIsTerminal : Bool) (host : Host) (files : FileAccess Id)
    (env : Environment) (arguments : List String) (budget : Nat) :
    ∃ outcome memory,
      (CommandLine.run host Memory.streams files.lift env arguments budget).run
        (.ofInput input) = (outcome, memory) ∧
      (∃ console s' unread,
        Console.runFrom
          (CommandLine.run host (Console.streams system) files.lift env arguments budget)
          (.initial outputIsTerminal) s = ((.ok outcome, console), s') ∧
        At s' unread (memory.output.bytes ++ memory.errors.bytes) ∧
        console.output.Idle ∧ console.errors.Idle) ∧
      ∀ exitCode, outcome = .ok exitCode →
        runProcess host files env arguments input budget =
          ⟨exitCode, memory.output.bytes ++ memory.errors.bytes⟩ := by
  rcases hmain : (CommandLine.run host Memory.streams files.lift env arguments budget).run
    (.ofInput input) with ⟨outcome, memory⟩
  refine ⟨outcome, memory, rfl, Process.exists_run h hs outputIsTerminal hmain, ?_⟩
  rintro exitCode rfl
  exact Process.runProcess_eq hmain

/-- A program that reads, prints and faults: its output stands before the diagnostic. -/
theorem process_of_echo_and_fault :
    let host := Host.upTo 1024
    let files := FileSystem.empty.access
    let arguments := ["--tape-length", "2", "-e", ",.<"]
    Terminal.system.Serves Terminal.Shows ∧ (Terminal.ofInput [7]).Shows [7] [] ∧
      ∃ memory : Memory, memory.output.bytes = [7] ∧
        memory.errors.bytes = Utf8.encode (Fault.outOfBounds 2 .left).line ∧
        (∃ console terminal unread,
          Console.runFrom (CommandLine.run host (Console.streams Terminal.system) files.lift
            (fun _ => none) arguments 5) (.initial false) (Terminal.ofInput [7]) =
              ((.ok (.ok (some .failure)), console), terminal) ∧
          terminal.Shows unread (memory.output.bytes ++ memory.errors.bytes) ∧
          console.output.Idle ∧ console.errors.Idle) ∧
        runProcess host files (fun _ => none) arguments [7] 5 =
          ⟨some .failure, memory.output.bytes ++ memory.errors.bytes⟩ := by
  intro host files arguments
  refine ⟨Terminal.serves, Terminal.shows_ofInput [7], ?_⟩
  obtain ⟨outcome, memory, hmain, hprocess, hreport⟩ := process_refines_command_line
    Terminal.serves (Terminal.shows_ofInput [7]) false host files (fun _ => none) arguments 5
  have hevaluated : (CommandLine.run host Memory.streams files.lift (fun _ => none)
      arguments 5).run (.ofInput [7]) = (.ok (some .failure), ⟨⟨[]⟩, ⟨#[7]⟩,
        ⟨(Utf8.encode (Fault.outOfBounds 2 .left).line).toArray⟩⟩) := rfl
  obtain ⟨rfl, rfl⟩ := Prod.mk.inj (hmain.symm.trans hevaluated)
  exact ⟨_, rfl, rfl, hprocess, hreport _ rfl⟩

end Brainfuck
