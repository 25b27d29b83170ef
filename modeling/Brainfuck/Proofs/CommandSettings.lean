import Brainfuck.CommandLine.Run
import Brainfuck.Proofs.ArgumentGrammar
import Brainfuck.Proofs.Reachability
import Brainfuck.Proofs.WholeNumbers
import Brainfuck.Stream.Buffer

/-!
# The settings of a command

A text on the command line or in the environment is judged before it becomes a setting, and
settings are judged again when an execution starts. The second judgement never disagrees
with the first: what a command carries are option values, written back as numbers and names,
and these read back as the same values. A tape length is where this could fail, since it
passes through binary64 twice.

The environment enters behind the arguments. Reading does not look at the settings it
collects, so settings that lie behind them from the start give the same result as settings
that are put behind them at the end. Hence the environment amounts to flags in front of the
arguments.
-/
namespace Brainfuck

open Brainfuck.Bracket (Strategy)

theorem exists_of_map_eq_ok {ε α β : Type} {f : α → β} {x : Except ε α} {b : β}
    (h : x.map f = .ok b) : ∃ a, x = .ok a ∧ f a = b := by
  cases x with
  | error error => cases h
  | ok a => exact ⟨a, rfl, Except.ok.inj h⟩

theorem tapeLength?_le {x : Binary64} {n : Nat} (h : tapeLength? x = some n) :
    n ≤ Binary64.maxSafeInteger := by
  obtain ⟨z, hz, rfl⟩ := Option.map_eq_some_iff.mp h
  have hsafe := (Option.filter_eq_some_iff.mp hz).1
  have hle : z.natAbs ≤ Binary64.maxSafeInteger := by
    simpa using (Option.filter_eq_some_iff.mp hsafe).2
  omega

/-- A tape length that is accepted is accepted as a number again. -/
theorem tapeLength?_ofNat {x : Binary64} {n : Nat} (h : tapeLength? x = some n) :
    tapeLength? (.ofNat n) = some n := by
  have hle := tapeLength?_le h
  simp [tapeLength?, Binary64.toSafeInt?, Binary64.toInt?_ofNat hle, hle, tapeLength?_pos h]

theorem tapeLength?_of_parse {text : String} {n : Nat} (h : parseTapeLength text = .ok n) :
    tapeLength? (.ofNat n) = some n := by
  unfold parseTapeLength at h
  split at h
  next hlength =>
    obtain rfl := Except.ok.inj h
    exact tapeLength?_ofNat hlength
  next => cases h

theorem CellWidth.ofNumber?_bits (width : CellWidth) :
    ofNumber? (.ofNat width.bits) = some width := by
  have hle : width.bits ≤ Binary64.maxSafeInteger := by cases width <;> decide
  rw [ofNumber?, Binary64.toInt?_ofNat hle]
  exact ofInt?_bits width

/-- The settings that ask for these options, all of them. -/
def Options.toSettings (options : Options) : Settings where
  tapeLength := some (.ofNat options.tapeLength)
  cellWidth := some (.ofNat options.cellWidth.bits)
  brackets := some options.brackets.name

namespace Settings

/-- Settings whose members are written back from option values. -/
def ofValues (length : Option Nat) (width : Option CellWidth) (strategy : Option Strategy) :
    Settings where
  tapeLength := length.map .ofNat
  cellWidth := width.map fun width => .ofNat width.bits
  brackets := strategy.map Strategy.name

theorem resolve_ofValues {length : Option Nat} (width : Option CellWidth)
    (strategy : Option Strategy) (h : ∀ n, length = some n → tapeLength? (.ofNat n) = some n) :
    (ofValues length width strategy).resolve =
      .ok ⟨length.getD Options.default.tapeLength, width.getD Options.default.cellWidth,
        strategy.getD Options.default.brackets⟩ := by
  refine resolve_eq_ok_iff.mpr ⟨?_, ?_, ?_⟩
  · cases length with
    | none => rfl
    | some n => simp [askedTapeLength, ofValues, h]
  · cases width with
    | none => rfl
    | some width => simp [askedCellWidth, ofValues, CellWidth.ofNumber?_bits]
  · cases strategy with
    | none => rfl
    | some strategy => simp [askedBrackets, ofValues, parseBrackets]

@[simp] theorem orElse_empty (s : Settings) : s.orElse {} = s :=
  eq_iff.mpr (by simp [orElse])

theorem toSettings_getD (length : Option Nat) (width : Option CellWidth)
    (strategy : Option Strategy) :
    (Options.mk (length.getD Options.default.tapeLength) (width.getD Options.default.cellWidth)
      (strategy.getD Options.default.brackets)).toSettings =
        (ofValues length width strategy).orElse Options.default.toSettings := by
  cases length <;> cases width <;> cases strategy <;> rfl

end Settings

namespace Arguments

theorem Item.ofValue_eq_tapeLength {flag : ValueFlag} {value : String} {n : Nat}
    (h : ofValue flag value = .ok (.tapeLength n)) : parseTapeLength value = .ok n := by
  cases flag with
  | eval => cases h
  | cellWidth => obtain ⟨_, _, ⟨⟩⟩ := exists_of_map_eq_ok h
  | tapeLength =>
      obtain ⟨_, hparse, ⟨⟩⟩ := exists_of_map_eq_ok h
      exact hparse
  | brackets => obtain ⟨_, _, ⟨⟩⟩ := exists_of_map_eq_ok h

theorem Item.Spelled.accepted {n : Nat} {words : List String}
    (h : (Item.tapeLength n).Spelled words) : Brainfuck.tapeLength? (.ofNat n) = some n := by
  cases h with
  | valued hvalue _ => exact tapeLength?_of_parse (ofValue_eq_tapeLength hvalue)

section
variable {env : Environment} {arguments : List String} {command : Command}

theorem tapeLength?_of_given {n : Nat} (h : env.given "BF_TAPE_LENGTH" parseTapeLength = some n) :
    tapeLength? (.ofNat n) = some n := by
  obtain ⟨text, _, htext⟩ := Option.bind_eq_some_iff.mp h
  cases hparse : parseTapeLength text with
  | error error => simp [hparse, Except.toOption] at htext
  | ok n' =>
      obtain rfl : n' = n := by simpa [hparse, Except.toOption] using htext
      exact tapeLength?_of_parse hparse

/-- All settings of a command are option values, wherever they come from. -/
theorem exists_ofValues (h : parse env arguments = .ok (.run command)) :
    ∃ length width strategy, command.settings = .ofValues length width strategy ∧
      ∀ n, length = some n → tapeLength? (.ofNat n) = some n := by
  obtain ⟨items, hwritten, hasks⟩ := parse_eq_run_iff_asks.mp h
  refine ⟨_, _, _, Settings.eq_iff.mpr ⟨hasks.tapeLength, hasks.cellWidth, hasks.brackets⟩, ?_⟩
  intro n hn
  rcases Option.or_eq_some_iff.mp hn with hlast | ⟨_, hgiven⟩
  · obtain ⟨item, hitem, hlength⟩ := List.mem_filterMap.mp (List.mem_of_getLast? hlast)
    cases item with
    | tapeLength n' =>
        obtain rfl : n' = n := Option.some.inj hlength
        obtain ⟨_, _, words, _, _, _, hspelled⟩ := hwritten.exists_place hitem
        exact hspelled.accepted
    | _ => cases hlength
  · exact tapeLength?_of_given hgiven

theorem exists_resolve (h : parse env arguments = .ok (.run command)) :
    ∃ options, command.settings.resolve = .ok options ∧
      options.toSettings = command.settings.orElse Options.default.toSettings := by
  obtain ⟨length, width, strategy, hsettings, hlength⟩ := exists_ofValues h
  rw [hsettings]
  exact ⟨_, Settings.resolve_ofValues width strategy hlength, Settings.toSettings_getD ..⟩

/-- The environment has no say in whether arguments ask for a run. -/
theorem exists_run_in (h : parse env arguments = .ok (.run command)) (env' : Environment) :
    ∃ command', parse env' arguments = .ok (.run command') ∧ command'.source = command.source ∧
      command'.quiet = command.quiet ∧ command'.frame = command.frame := by
  obtain ⟨draft, hread, hsource, _, hquiet, hframe⟩ := parse_eq_run_iff.mp h
  refine ⟨⟨command.source, draft.settings.orElse (.ofEnvironment env'), draft.quiet, draft.frame⟩,
    ?_, rfl, hquiet.symm, hframe.symm⟩
  exact parse_eq_run_iff.mpr ⟨draft, hread, hsource, rfl, rfl, rfl⟩

end

end Arguments

/-- What the command line accepts, an execution accepts. The settings of a command resolve to
options that keep the settings which are there and take the defaults for the others. So the
command is executed under these options if the host makes a tape for them, and the only other
end is that it does not. Nothing in the environment changes this. -/
theorem command_settings_resolve {env : Environment} {arguments : List String}
    {command : Command} (h : Arguments.parse env arguments = .ok (.run command)) :
    (∃ options, command.settings.resolve = .ok options ∧
      options.toSettings = command.settings.orElse Options.default.toSettings ∧
      ∀ {m : Type → Type} [Monad m] [MonadFinally m] (host : Host) (streams : Streams m)
        (p : Program) (budget : Nat), interpret host streams command.settings p budget =
          match Tape.make host options.cellWidth.bits options.tapeLength with
          | .ok _ => .ok <$> Execution.execute streams options p budget
          | .error error => pure (.error (.tape error))) ∧
    ∀ env' : Environment, ∃ command' options',
      Arguments.parse env' arguments = .ok (.run command') ∧ command'.source = command.source ∧
        command'.quiet = command.quiet ∧ command'.frame = command.frame ∧
        command'.settings.resolve = .ok options' := by
  constructor
  · obtain ⟨options, hresolve, hkept⟩ := Arguments.exists_resolve h
    refine ⟨options, hresolve, hkept, ?_⟩
    intro m _ _ host streams p budget
    unfold interpret
    rw [Settings.prepare_of_resolve hresolve]
    cases Tape.make host options.cellWidth.bits options.tapeLength <;> rfl
  · intro env'
    obtain ⟨command', hparse, hsource, hquiet, hframe⟩ := Arguments.exists_run_in h env'
    obtain ⟨options', hresolve, _⟩ := Arguments.exists_resolve hparse
    exact ⟨command', options', hparse, hsource, hquiet, hframe, hresolve⟩

/-- A length in hexadecimal is kept, a width comes from the environment, and a strategy that
does not exist is ignored there. The tape takes sixteen octets. -/
theorem command_settings_resolve_of_hexadecimal :
    let env := Environment.ofList [("BF_CELL_WIDTH", some "8"), ("BF_BRACKETS", some "none")]
    ∃ command, Arguments.parse env ["--tape-length=0x10", "-q", "-e", "+"] = .ok (.run command) ∧
      command.settings.resolve = .ok ⟨16, .bits8, .scan⟩ ∧
      (Options.mk 16 .bits8 .scan).toSettings =
        command.settings.orElse Options.default.toSettings ∧
      interpret (.upTo 16) Memory.streams command.settings (Program.ofText "+") 2 =
        .ok <$> Execution.execute Memory.streams ⟨16, .bits8, .scan⟩ (Program.ofText "+") 2 ∧
      interpret (.upTo 15) Memory.streams command.settings (Program.ofText "+") 2 =
        pure (.error (.tape .outOfMemory)) ∧
      ∃ command' options', Arguments.parse (fun _ => none) ["--tape-length=0x10", "-q", "-e", "+"] =
        .ok (.run command') ∧ command'.settings.resolve = .ok options' := by
  intro env
  have hparse : Arguments.parse env ["--tape-length=0x10", "-q", "-e", "+"] =
      .ok (.run ⟨.literal "+", .ofValues (some 16) (some .bits8) none, true, false⟩) := rfl
  have hoptions : (Settings.ofValues (some 16) (some .bits8) none).resolve =
      .ok ⟨16, .bits8, .scan⟩ := rfl
  obtain ⟨⟨options, hresolve, hkept, hinterpret⟩, henv⟩ := command_settings_resolve hparse
  obtain ⟨command', options', hparse', _, _, _, hresolve'⟩ := henv fun _ => none
  obtain rfl : options = ⟨16, .bits8, .scan⟩ := Except.ok.inj (hresolve.symm.trans hoptions)
  exact ⟨_, hparse, hresolve, hkept, hinterpret (.upTo 16) Memory.streams _ 2,
    hinterpret (.upTo 15) Memory.streams _ 2, command', options', hparse', hresolve'⟩

/-- A length from the environment that is accepted and has no tape, however much memory there
is. The same arguments succeed without it. -/
theorem environment_length_without_tape :
    let host : Host := ⟨fun _ => true⟩
    let files : FileAccess (StateM Memory) := FileSystem.empty.access.lift
    let env := Environment.ofList [("BF_TAPE_LENGTH", some "9007199254740991")]
    let arguments := ["-e", "+"]
    parseTapeLength "9007199254740991" = .ok 9007199254740991 ∧
      (∃ command, Arguments.parse env arguments = .ok (.run command) ∧
        command.settings.resolve = .ok ⟨9007199254740991, .bits32, .scan⟩) ∧
      ((CommandLine.run host Memory.streams files env arguments 2).run (.ofInput [])).1 =
        .error (.start (.tape (.invalidLength 9007199254740991))) ∧
      ((CommandLine.run host Memory.streams files (fun _ => none) arguments 2).run
        (.ofInput [])).1 = .ok (some .success) := by
  intro host files env arguments
  exact ⟨rfl, ⟨_, rfl, rfl⟩, rfl, rfl⟩

/-- A variable as a flag: the flag and the value that the variable is set to, if the flag
takes it. -/
def Environment.flag {α : Type} (env : Environment) (name : String) (flag : Arguments.ValueFlag)
    (parse : String → Except ConfigError α) : List String :=
  match env name with
  | none => []
  | some text =>
    match parse text with
    | .ok _ => [flag.name, text]
    | .error _ => []

/-- The environment as arguments. -/
def Environment.flags (env : Environment) : List String :=
  env.flag "BF_TAPE_LENGTH" .tapeLength parseTapeLength ++
    env.flag "BF_CELL_WIDTH" .cellWidth parseCellWidth ++
    env.flag "BF_BRACKETS" .brackets parseBrackets

namespace Arguments

def Draft.mapSettings (f : Settings → Settings) (draft : Draft) : Draft :=
  { draft with settings := f draft.settings }

/-- The draft with settings behind its own. -/
def Draft.withBase (base : Settings) (draft : Draft) : Draft :=
  draft.mapSettings (·.orElse base)

theorem Draft.add?_withBase (base : Settings) (draft : Draft) (item : Item) :
    (draft.withBase base).add? item = (draft.add? item).map (withBase base) := by
  cases item with
  | eval text => cases h : draft.literal <;> simp [withBase, mapSettings, add?, h]
  | file path => cases h : draft.file <;> simp [withBase, mapSettings, add?, h]
  | _ => rfl

/-- Settings that lie behind those of the arguments do not change how these are read. -/
theorem read_withBase (base : Settings) (draft : Draft) (arguments : List String) :
    read (draft.withBase base) arguments =
      (read draft arguments).map (Option.map (Draft.withBase base)) := by
  induction arguments using items_induction generalizing draft with
  | nil => rfl
  | help rest hhelp =>
      obtain ⟨_, ⟨⟩, hread⟩ := hhelp.exists_read
      rw [hread, hread]
      rfl
  | refused hrefused =>
      obtain ⟨error, hread⟩ := hrefused
      rw [hread, hread]
      rfl
  | @item item words rest hitem ih =>
      obtain ⟨error, hread⟩ := hitem.read_eq
      rw [hread, hread, Draft.add?_withBase]
      cases draft.add? item with
      | none => rfl
      | some next => exact ih next

/-- A variable whose value a flag takes changes the settings, and any other one nothing. -/
theorem read_flag {α : Type} (item : α → Item) (set : α → Settings → Settings)
    {flag : ValueFlag} {parse : String → Except ConfigError α}
    (hvalue : ∀ text, Item.ofValue flag text = (parse text).map item)
    (hadd : ∀ (draft : Draft) a, draft.add? (item a) = some (draft.mapSettings (set a)))
    (env : Environment) (name : String) (draft : Draft) (rest : List String) :
    read draft (env.flag name flag parse ++ rest) =
      read (draft.mapSettings ((env.given name parse).elim id set)) rest := by
  unfold Environment.flag Environment.given
  cases env name with
  | none => rfl
  | some text =>
      rw [Option.bind_some]
      dsimp only
      cases hparse : parse text with
      | error error => rfl
      | ok a =>
          have hvalued : Item.ofValue flag text = .ok (item a) := by
            rw [hvalue, hparse]
            rfl
          obtain ⟨error, hread⟩ := (Item.Spelled.valued hvalued .separate).read_eq
          rw [hread, hadd]
          rfl

theorem read_flags (env : Environment) (arguments : List String) :
    read {} (env.flags ++ arguments) =
      read (({} : Draft).withBase (.ofEnvironment env)) arguments := by
  unfold Environment.flags
  rw [List.append_assoc, List.append_assoc,
    read_flag Item.tapeLength Settings.withTapeLength (fun _ => rfl) (fun _ _ => rfl),
    read_flag Item.cellWidth Settings.withCellWidth (fun _ => rfl) (fun _ _ => rfl),
    read_flag Item.brackets Settings.withBrackets (fun _ => rfl) (fun _ _ => rfl)]
  congr 1
  unfold Settings.ofEnvironment
  cases env.given "BF_TAPE_LENGTH" parseTapeLength <;>
    cases env.given "BF_CELL_WIDTH" parseCellWidth <;>
    cases env.given "BF_BRACKETS" parseBrackets <;> rfl

end Arguments

/-- The environment is nothing but flags in front of the arguments: whatever the arguments
ask for, and whatever is wrong with them, comes out the same. -/
theorem parse_eq_parse_flags (env : Environment) (arguments : List String) :
    Arguments.parse env arguments =
      Arguments.parse (fun _ => none) (env.flags ++ arguments) := by
  unfold Arguments.parse
  rw [Arguments.read_flags, Arguments.read_withBase]
  rcases Arguments.read {} arguments with error | _ | draft
  · rfl
  · rfl
  · have hsource : (draft.withBase (.ofEnvironment env)).source = draft.source := rfl
    have hsettings : (draft.withBase (.ofEnvironment env)).settings.orElse
        (.ofEnvironment fun _ => none) = draft.settings.orElse (.ofEnvironment env) :=
      Settings.orElse_empty _
    dsimp only [Except.map, Option.map_some]
    rw [hsource, hsettings]
    rfl

end Brainfuck
