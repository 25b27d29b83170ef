import Brainfuck.CommandLine.Arguments
import Mathlib.Data.List.Induction

/-!
# The grammar of the arguments

Arguments are written from items: switches, flags with a value that they take, and paths.
The grammar says how each item is written and nothing about the order in which arguments
are looked at. Reading is then followed item by item. An item is added to the draft or
refused with an error of its own, and where no item starts there is a request for help or
an error that no draft can avert. So a command line is a list of items up to its end or up
to a request for help, and what it asks for can be read off the items.
-/
namespace Brainfuck

open Brainfuck.Bracket (Strategy)

theorem Settings.eq_iff {s t : Settings} : s = t ↔
    s.tapeLength = t.tapeLength ∧ s.cellWidth = t.cellWidth ∧ s.brackets = t.brackets := by
  obtain ⟨_, _, _⟩ := s
  obtain ⟨_, _, _⟩ := t
  simp

namespace Arguments

/-- One thing that arguments can ask for, help apart. -/
inductive Item where
  | quiet
  | frame
  | eval (text : String)
  | cellWidth (width : CellWidth)
  | tapeLength (n : Nat)
  | brackets (strategy : Strategy)
  | file (path : String)
  deriving DecidableEq, Repr

def ValueFlag.name : ValueFlag → String
  | .eval => "--eval"
  | .cellWidth => "--cell-width"
  | .tapeLength => "--tape-length"
  | .brackets => "--brackets"

/-- What a flag and its value ask for, if the flag takes the value. -/
def Item.ofValue : ValueFlag → String → Except ConfigError Item
  | .eval, text => .ok (.eval text)
  | .cellWidth, text => (parseCellWidth text).map .cellWidth
  | .tapeLength, text => (parseTapeLength text).map .tapeLength
  | .brackets, text => (parseBrackets text).map .brackets

/-- A long flag that takes no value, with or without a text joined to it. -/
inductive Bare (flag : String) : List String → Prop
  | alone : Bare flag [flag]
  | joined (text : String) : Bare flag [flag ++ "=" ++ text]

/-- A long flag and its value, in two arguments or in one. -/
inductive Valued (flag value : String) : List String → Prop
  | separate : Valued flag value [flag, value]
  | joined : Valued flag value [flag ++ "=" ++ value]

/-- The ways to write an item. -/
inductive Item.Spelled : Item → List String → Prop
  | shortQuiet : Spelled .quiet ["-q"]
  | quiet {words : List String} : Bare "--quiet" words → Spelled .quiet words
  | frame {words : List String} : Bare "--frame" words → Spelled .frame words
  | shortEval (text : String) : Spelled (.eval text) ["-e", text]
  | valued {flag : ValueFlag} {value : String} {item : Item} {words : List String} :
      ofValue flag value = .ok item → Valued flag.name value words → Spelled item words
  | file {path : String} : path.toList.head? ≠ some '-' ∨ path = "-" →
      Spelled (.file path) [path]

/-- The ways to ask for help. -/
inductive HelpSpelled : List String → Prop
  | short : HelpSpelled ["-h"]
  | long {words : List String} : Bare "--help" words → HelpSpelled words

/-- The arguments are items, one after another. -/
inductive Written : List Item → List String → Prop
  | nil : Written [] []
  | cons {item : Item} {items : List Item} {words arguments : List String} :
      item.Spelled words → Written items arguments →
      Written (item :: items) (words ++ arguments)

theorem Written.append {items more : List Item} {words rest : List String}
    (h : Written items words) (hmore : Written more rest) :
    Written (items ++ more) (words ++ rest) := by
  induction h with
  | nil => exact hmore
  | cons hitem _ ih =>
      rw [List.append_assoc]
      exact .cons hitem ih

theorem Item.Spelled.written {item : Item} {words : List String} (h : item.Spelled words) :
    Written [item] words := by
  have hwritten := Written.cons h .nil
  rwa [List.append_nil] at hwritten

/-- Every item has its place in the arguments. -/
theorem Written.exists_place {items : List Item} {arguments : List String} {item : Item}
    (h : Written items arguments) (hmem : item ∈ items) :
    ∃ front before words after, arguments = before ++ words ++ after ∧ Written front before ∧
      item.Spelled words := by
  induction h with
  | nil => cases hmem
  | @cons first items words arguments hfirst _ ih =>
      rcases List.mem_cons.mp hmem with rfl | hmem
      · exact ⟨[], [], words, arguments, rfl, .nil, hfirst⟩
      · obtain ⟨front, before, words', after, rfl, hfront, hitem⟩ := ih hmem
        refine ⟨first :: front, words ++ before, words', after, ?_, .cons hfirst hfront, hitem⟩
        simp only [List.append_assoc]

/-- The draft with an item taken into account. A second program of the same kind is refused. -/
def Draft.add? (draft : Draft) : Item → Option Draft
  | .quiet => some { draft with quiet := true }
  | .frame => some { draft with frame := true }
  | .eval text => if draft.literal.isSome then none else some { draft with literal := some text }
  | .cellWidth width => some { draft with settings := draft.settings.withCellWidth width }
  | .tapeLength n => some { draft with settings := draft.settings.withTapeLength n }
  | .brackets strategy => some { draft with settings := draft.settings.withBrackets strategy }
  | .file path => if draft.file.isSome then none else some { draft with file := some path }

section
variable {flag value : String} {name : List Char}

theorem split_joined (hflag : flag.toList = '-' :: '-' :: name) (hname : '=' ∉ name)
    (value : String) : split (flag ++ "=" ++ value) = (flag, some value) := by
  have hlist : (flag ++ "=" ++ value).toList = '-' :: '-' :: (name ++ '=' :: value.toList) := by
    simp [hflag]
  have hall : ∀ c ∈ name, (c != '=') = true := by
    intro c hc
    have hne : c ≠ '=' := fun h => hname (h ▸ hc)
    simpa using hne
  have hdrop : (name ++ '=' :: value.toList).dropWhile (· != '=') = '=' :: value.toList := by
    rw [List.dropWhile_append_of_pos hall]
    rfl
  have htake : (name ++ '=' :: value.toList).takeWhile (· != '=') = name := by
    rw [List.takeWhile_append_of_pos hall]
    simp
  unfold split
  simp only [hlist, hdrop, htake, ← hflag, String.ofList_toList]

/-- An argument is a flag alone, or a long flag with a text joined to it. -/
theorem split_cases (argument : String) :
    split argument = (argument, none) ∨
      ∃ flag value name, split argument = (flag, some value) ∧
        flag.toList = '-' :: '-' :: name ∧ argument = flag ++ "=" ++ value := by
  unfold split
  split
  next name hargument =>
    split
    next value hvalue =>
      refine .inr ⟨_, _, _, rfl, String.toList_ofList, ?_⟩
      have hname := List.takeWhile_append_dropWhile (p := (· != '=')) (l := name)
      rw [hvalue] at hname
      rw [← String.toList_inj, hargument]
      simp [hname]
    next => exact .inl rfl
  next => exact .inl rfl

end

section
variable {flag : String}

theorem Switch.ofText?_eq_help (h : Switch.ofText? flag = some .help) :
    flag = "-h" ∨ flag = "--help" := by
  unfold Switch.ofText? at h
  grind

theorem Switch.ofText?_eq_quiet (h : Switch.ofText? flag = some .quiet) :
    flag = "-q" ∨ flag = "--quiet" := by
  unfold Switch.ofText? at h
  grind

theorem Switch.ofText?_eq_frame (h : Switch.ofText? flag = some .frame) : flag = "--frame" := by
  unfold Switch.ofText? at h
  grind

theorem ValueFlag.eq_of_ofText? {f : ValueFlag} (h : ValueFlag.ofText? flag = some f) :
    flag = f.name ∨ f = .eval ∧ flag = "-e" := by
  unfold ValueFlag.ofText? at h
  grind [ValueFlag.name]

end

section
variable {flag argument value : String} {joined : Option String} {f : ValueFlag}

theorem read_switch {switch : Switch} (hsplit : split argument = (flag, joined))
    (hswitch : Switch.ofText? flag = some switch) (draft : Draft) (rest : List String) :
    read draft (argument :: rest) =
      match switch with
      | .help => .ok none
      | .quiet => read { draft with quiet := true } rest
      | .frame => read { draft with frame := true } rest := by
  rw [read.eq_def]
  simp only [hsplit, hswitch]
  cases switch <;> rfl

theorem read_value_joined (hsplit : split argument = (flag, some value))
    (hswitch : Switch.ofText? flag = none) (hflag : ValueFlag.ofText? flag = some f)
    (draft : Draft) (rest : List String) :
    read draft (argument :: rest) = (draft.take f flag value).bind (read · rest) := by
  rw [read.eq_def]
  simp only [hsplit, hswitch, hflag]
  cases draft.take f flag value <;> rfl

theorem read_value_separate (hsplit : split argument = (flag, none))
    (hswitch : Switch.ofText? flag = none) (hflag : ValueFlag.ofText? flag = some f)
    (draft : Draft) (rest : List String) :
    read draft (argument :: value :: rest) = (draft.take f flag value).bind (read · rest) := by
  rw [read.eq_def]
  simp only [hsplit, hswitch, hflag]
  cases draft.take f flag value <;> rfl

theorem read_plain (hsplit : split argument = (flag, joined))
    (hswitch : Switch.ofText? flag = none) (hflag : ValueFlag.ofText? flag = none)
    (draft : Draft) (rest : List String) :
    read draft (argument :: rest) = (draft.takePlain flag argument).bind (read · rest) := by
  rw [read.eq_def]
  simp only [hsplit, hswitch, hflag]
  cases draft.takePlain flag argument <;> rfl

end

theorem Draft.take_eq (draft : Draft) (flag : ValueFlag) (spelling value : String) :
    draft.take flag spelling value =
      match Item.ofValue flag value with
      | .error error => .error (.invalidValue error)
      | .ok item =>
        match draft.add? item with
        | some next => .ok next
        | none => .error (.repeatedFlag spelling) := by
  cases flag with
  | eval =>
      dsimp only [take, Item.ofValue, add?]
      cases draft.literal <;> rfl
  | cellWidth =>
      dsimp only [take, Item.ofValue]
      cases parseCellWidth value <;> rfl
  | tapeLength =>
      dsimp only [take, Item.ofValue]
      cases parseTapeLength value <;> rfl
  | brackets =>
      dsimp only [take, Item.ofValue]
      cases parseBrackets value <;> rfl

section
variable {flag argument : String} {joined : Option String} {words : List String}

theorem bare_of_split (h : split argument = (flag, joined)) : Bare flag [argument] := by
  rcases split_cases argument with halone | ⟨_, _, _, hjoined, _, rfl⟩
  · obtain ⟨rfl, rfl⟩ := Prod.mk.inj (halone.symm.trans h)
    exact .alone
  · obtain ⟨rfl, _⟩ := Prod.mk.inj (hjoined.symm.trans h)
    exact .joined _

/-- Nothing is joined to a short flag. -/
theorem eq_of_split_short (h : split argument = (flag, joined))
    (hshort : ∀ name, flag.toList ≠ '-' :: '-' :: name) : argument = flag ∧ joined = none := by
  rcases split_cases argument with halone | ⟨_, _, name, hjoined, hlong, _⟩
  · obtain ⟨rfl, rfl⟩ := Prod.mk.inj (halone.symm.trans h)
    exact ⟨rfl, rfl⟩
  · obtain ⟨rfl, _⟩ := Prod.mk.inj (hjoined.symm.trans h)
    exact (hshort name hlong).elim

theorem Bare.exists_split {name : List Char} (hflag : flag.toList = '-' :: '-' :: name)
    (hname : '=' ∉ name) (hsplit : split flag = (flag, none)) (h : Bare flag words) :
    ∃ word joined, words = [word] ∧ split word = (flag, joined) := by
  cases h with
  | alone => exact ⟨flag, none, rfl, hsplit⟩
  | joined text => exact ⟨_, some text, rfl, split_joined hflag hname text⟩

theorem ValueFlag.exists_name (f : ValueFlag) :
    ∃ name, f.name.toList = '-' :: '-' :: name ∧ '=' ∉ name := by
  cases f <;> exact ⟨_, rfl, by decide⟩

/-- A value counts in the same way wherever it stands. -/
theorem Valued.read_eq {f : ValueFlag} {value : String} (h : Valued f.name value words)
    (draft : Draft) (rest : List String) :
    read draft (words ++ rest) = (draft.take f f.name value).bind (read · rest) := by
  have hswitch : Switch.ofText? f.name = none := by cases f <;> rfl
  have hflag : ValueFlag.ofText? f.name = some f := by cases f <;> rfl
  cases h with
  | separate =>
      have hsplit : split f.name = (f.name, none) := by cases f <;> rfl
      exact read_value_separate hsplit hswitch hflag draft rest
  | joined =>
      obtain ⟨name, hname, hplain⟩ := f.exists_name
      exact read_value_joined (split_joined hname hplain value) hswitch hflag draft rest

theorem isPositional_iff : isPositional argument = true ↔
    argument.toList.head? ≠ some '-' ∨ argument = "-" := by
  simp [isPositional]

theorem split_of_positional (h : argument.toList.head? ≠ some '-' ∨ argument = "-") :
    split argument = (argument, none) := by
  rcases split_cases argument with halone | ⟨flag, value, name, _, hflag, rfl⟩
  · exact halone
  · rcases h with hhead | hdash
    · simp [hflag] at hhead
    · have hlist := congrArg String.toList hdash
      simp [hflag] at hlist

/-- All flags start with a dash and have more behind it. -/
theorem ofText?_of_positional (h : argument.toList.head? ≠ some '-' ∨ argument = "-") :
    Switch.ofText? argument = none ∧ ValueFlag.ofText? argument = none := by
  have hne : ∀ flag : String, flag.toList.head? = some '-' ∧ flag ≠ "-" → argument ≠ flag := by
    rintro flag ⟨hhead, hdash⟩ rfl
    exact h.elim (· hhead) hdash
  unfold Switch.ofText? ValueFlag.ofText?
  constructor
  · simp [hne "-h" (by decide), hne "--help" (by decide), hne "-q" (by decide),
      hne "--quiet" (by decide), hne "--frame" (by decide)]
  · simp [hne "-e" (by decide), hne "--eval" (by decide), hne "--cell-width" (by decide),
      hne "--tape-length" (by decide), hne "--brackets" (by decide)]

end

/-- An item is added to the draft, or it is refused with an error that only depends on how
it is written. -/
theorem Item.Spelled.read_eq {item : Item} {words : List String} (h : item.Spelled words) :
    ∃ error, ∀ draft rest,
      read draft (words ++ rest) = (draft.add? item).elim (.error error) (read · rest) := by
  cases h with
  | shortQuiet => exact ⟨.noProgram, fun _ _ => rfl⟩
  | quiet hbare =>
      obtain ⟨word, joined, rfl, hsplit⟩ := hbare.exists_split rfl (by decide) rfl
      exact ⟨.noProgram, read_switch hsplit rfl⟩
  | frame hbare =>
      obtain ⟨word, joined, rfl, hsplit⟩ := hbare.exists_split rfl (by decide) rfl
      exact ⟨.noProgram, read_switch hsplit rfl⟩
  | shortEval text =>
      have hsplit : split "-e" = ("-e", none) := rfl
      have hswitch : Switch.ofText? "-e" = none := rfl
      have hflag : ValueFlag.ofText? "-e" = some .eval := rfl
      refine ⟨.repeatedFlag "-e", fun draft rest => ?_⟩
      rw [List.cons_append, List.singleton_append, read_value_separate hsplit hswitch hflag,
        Draft.take_eq]
      dsimp only [Item.ofValue]
      cases draft.add? (.eval text) <;> rfl
  | @valued flag value _ _ hvalue hvalued =>
      refine ⟨.repeatedFlag flag.name, fun draft rest => ?_⟩
      rw [hvalued.read_eq, Draft.take_eq, hvalue]
      dsimp only
      cases draft.add? item <;> rfl
  | @file path hpath =>
      refine ⟨.unexpectedArgument path, fun draft rest => ?_⟩
      obtain ⟨hswitch, hflag⟩ := ofText?_of_positional hpath
      rw [List.singleton_append, read_plain (split_of_positional hpath) hswitch hflag]
      unfold Draft.takePlain Draft.add?
      rw [if_pos (isPositional_iff.mpr hpath)]
      cases draft.file <;> rfl

theorem HelpSpelled.exists_read {words : List String} (h : HelpSpelled words) :
    ∃ word, words = [word] ∧ ∀ draft rest, read draft (word :: rest) = .ok none := by
  cases h with
  | short => exact ⟨_, rfl, fun _ _ => rfl⟩
  | long hbare =>
      obtain ⟨word, joined, rfl, hsplit⟩ := hbare.exists_split rfl (by decide) rfl
      exact ⟨word, rfl, read_switch hsplit rfl⟩

/-- Arguments that no draft can take into account. -/
def Refused (arguments : List String) : Prop :=
  ∃ error, ∀ draft, read draft arguments = .error error

theorem Valued.spelled_or_refused {f : ValueFlag} {value : String} {words : List String}
    (h : Valued f.name value words) (rest : List String) :
    (∃ item : Item, item.Spelled words) ∨ Refused (words ++ rest) := by
  cases hvalue : Item.ofValue f value with
  | ok item => exact .inl ⟨item, .valued hvalue h⟩
  | error error =>
      refine .inr ⟨.invalidValue error, fun draft => ?_⟩
      rw [h.read_eq, Draft.take_eq, hvalue]
      rfl

section
variable {flag argument : String} {joined : Option String}

/-- What a switch is written as. -/
theorem spelled_of_switch {switch : Switch} (hsplit : split argument = (flag, joined))
    (h : Switch.ofText? flag = some switch) :
    HelpSpelled [argument] ∨ ∃ item : Item, item.Spelled [argument] := by
  have hbare := bare_of_split hsplit
  cases switch with
  | help =>
      rcases Switch.ofText?_eq_help h with rfl | rfl
      · obtain ⟨rfl, _⟩ := eq_of_split_short hsplit (by simp)
        exact .inl .short
      · exact .inl (.long hbare)
  | quiet =>
      rcases Switch.ofText?_eq_quiet h with rfl | rfl
      · obtain ⟨rfl, _⟩ := eq_of_split_short hsplit (by simp)
        exact .inr ⟨_, .shortQuiet⟩
      · exact .inr ⟨_, .quiet hbare⟩
  | frame =>
      obtain rfl := Switch.ofText?_eq_frame h
      exact .inr ⟨_, .frame hbare⟩

theorem spelled_of_value {f : ValueFlag} (hsplit : split argument = (flag, joined))
    (hswitch : Switch.ofText? flag = none) (h : ValueFlag.ofText? flag = some f)
    (rest : List String) :
    (∃ (item : Item) (words rest' : List String), item.Spelled words ∧
      argument :: rest = words ++ rest') ∨ Refused (argument :: rest) := by
  have hmissing : split argument = (flag, none) → Refused [argument] := by
    intro hsplit
    refine ⟨.missingValue flag, fun draft => ?_⟩
    rw [read.eq_def]
    simp only [hsplit, hswitch, h]
  rcases ValueFlag.eq_of_ofText? h with rfl | ⟨rfl, rfl⟩
  · rcases split_cases argument with halone | ⟨_, value, _, hjoined, _, rfl⟩
    · obtain ⟨rfl, rfl⟩ := Prod.mk.inj (hsplit.symm.trans halone)
      cases rest with
      | nil => exact .inr (hmissing halone)
      | cons value rest =>
          have hvalued : Valued f.name value [f.name, value] := .separate
          refine (hvalued.spelled_or_refused rest).imp_left ?_
          rintro ⟨item, hitem⟩
          exact ⟨item, _, rest, hitem, rfl⟩
    · obtain ⟨rfl, _⟩ := Prod.mk.inj (hjoined.symm.trans hsplit)
      have hvalued : Valued f.name value [f.name ++ "=" ++ value] := .joined
      refine (hvalued.spelled_or_refused rest).imp_left ?_
      rintro ⟨item, hitem⟩
      exact ⟨item, _, rest, hitem, rfl⟩
  · obtain ⟨rfl, rfl⟩ := eq_of_split_short hsplit (by simp)
    cases rest with
    | nil => exact .inr (hmissing hsplit)
    | cons text rest => exact .inl ⟨_, _, rest, .shortEval text, rfl⟩

theorem spelled_of_plain (hsplit : split argument = (flag, joined))
    (hswitch : Switch.ofText? flag = none) (h : ValueFlag.ofText? flag = none)
    (rest : List String) :
    (∃ item : Item, item.Spelled [argument]) ∨ Refused (argument :: rest) := by
  cases hpositional : isPositional flag with
  | true =>
      have hflag := isPositional_iff.mp hpositional
      obtain ⟨rfl, _⟩ := eq_of_split_short hsplit (by
        rintro name hname
        rcases hflag with hhead | rfl
        · simp [hname] at hhead
        · simp at hname)
      exact .inl ⟨_, .file hflag⟩
  | false =>
      refine .inr ⟨.unknownFlag flag, fun draft => ?_⟩
      rw [read_plain hsplit hswitch h, Draft.takePlain, hpositional]
      rfl

end

/-- Arguments start with an item or with a request for help, or they are refused. -/
theorem spelled_or_refused (argument : String) (rest : List String) :
    (∃ (item : Item) (words rest' : List String), item.Spelled words ∧
      argument :: rest = words ++ rest') ∨
      HelpSpelled [argument] ∨ Refused (argument :: rest) := by
  rcases hsplit : split argument with ⟨flag, joined⟩
  cases hswitch : Switch.ofText? flag with
  | some switch =>
      rcases spelled_of_switch hsplit hswitch with hhelp | ⟨item, hitem⟩
      · exact .inr (.inl hhelp)
      · exact .inl ⟨item, _, rest, hitem, rfl⟩
  | none =>
      cases hvalue : ValueFlag.ofText? flag with
      | some f =>
          exact (spelled_of_value hsplit hswitch hvalue rest).imp_right .inr
      | none =>
          rcases spelled_of_plain hsplit hswitch hvalue rest with ⟨item, hitem⟩ | hrefused
          · exact .inl ⟨item, _, rest, hitem, rfl⟩
          · exact .inr (.inr hrefused)

theorem Item.Spelled.ne_nil {item : Item} {words : List String} (h : item.Spelled words) :
    words ≠ [] := by
  cases h with
  | shortQuiet | shortEval | file => simp
  | quiet hbare | frame hbare => cases hbare <;> simp
  | valued _ hvalued => cases hvalued <;> simp

/-- Arguments are followed item by item, up to their end, a request for help or a refusal. -/
@[elab_as_elim] theorem items_induction {motive : List String → Prop} (nil : motive [])
    (help : ∀ {word : String} (rest : List String), HelpSpelled [word] → motive (word :: rest))
    (refused : ∀ {arguments : List String}, Refused arguments → motive arguments)
    (item : ∀ {item : Item} {words : List String} (rest : List String), item.Spelled words →
      motive rest → motive (words ++ rest)) (arguments : List String) : motive arguments := by
  match arguments with
  | [] => exact nil
  | argument :: rest =>
      rcases spelled_or_refused argument rest with ⟨first, words, rest', hfirst, hwords⟩ | hhelp |
        hrefused
      · have hlength : rest'.length < (argument :: rest).length := by
          have hpos := List.length_pos_iff.mpr hfirst.ne_nil
          rw [hwords, List.length_append]
          omega
        rw [hwords]
        exact item rest' hfirst (items_induction nil help refused item rest')
      · exact help rest hhelp
      · exact refused hrefused
termination_by arguments.length
decreasing_by exact hlength

/-- The draft with items taken into account one after another. -/
def Draft.addAll? (draft : Draft) (items : List Item) : Option Draft :=
  items.foldlM Draft.add? draft

theorem Draft.addAll?_cons (draft : Draft) (item : Item) (items : List Item) :
    draft.addAll? (item :: items) = (draft.add? item).bind (·.addAll? items) := rfl

/-- How reading ends behind some items: with the arguments or at a request for help. -/
inductive Ending (draft : Draft) : List String → Option Draft → Prop
  | complete : Ending draft [] (some draft)
  | help {word : String} (rest : List String) :
      HelpSpelled [word] → Ending draft (word :: rest) none

section
variable {draft final : Draft} {arguments : List String}

/-- Items that can all be added are read. -/
theorem Written.read_append {items : List Item} {before : List String} (h : Written items before)
    (hadd : draft.addAll? items = some final) (rest : List String) :
    read draft (before ++ rest) = read final rest := by
  induction h generalizing draft with
  | nil =>
      obtain rfl : draft = final := Option.some.inj hadd
      rfl
  | cons hitem _ ih =>
      obtain ⟨next, hnext, hadd⟩ := Option.bind_eq_some_iff.mp hadd
      obtain ⟨error, hread⟩ := hitem.read_eq
      rw [List.append_assoc, hread, hnext]
      exact ih hadd

/-- Items at the start of arguments that are read can all be added. -/
theorem Written.exists_addAll? {items : List Item} {before rest : List String}
    {result : Option Draft} (h : Written items before)
    (hread : read draft (before ++ rest) = .ok result) :
    ∃ next, draft.addAll? items = some next ∧ read next rest = .ok result := by
  induction h generalizing draft with
  | nil => exact ⟨draft, rfl, hread⟩
  | @cons item items words arguments hitem _ ih =>
      obtain ⟨error, hitemRead⟩ := hitem.read_eq
      rw [List.append_assoc, hitemRead] at hread
      cases hnext : draft.add? item with
      | none =>
          rw [hnext] at hread
          cases hread
      | some next =>
          rw [hnext] at hread
          obtain ⟨final, hadd, hrest⟩ := ih hread
          refine ⟨final, ?_, hrest⟩
          rw [Draft.addAll?_cons, hnext]
          exact hadd

theorem exists_written {result : Option Draft} (h : read draft arguments = .ok result) :
    ∃ items before after final, arguments = before ++ after ∧ Written items before ∧
      draft.addAll? items = some final ∧ Ending final after result := by
  induction arguments using items_induction generalizing draft with
  | nil =>
      obtain rfl : some draft = result := Except.ok.inj h
      exact ⟨[], [], [], draft, rfl, .nil, rfl, .complete⟩
  | @help word rest hhelp =>
      obtain ⟨_, ⟨⟩, hread⟩ := hhelp.exists_read
      rw [hread] at h
      obtain rfl : none = result := Except.ok.inj h
      exact ⟨[], [], word :: rest, draft, rfl, .nil, rfl, .help rest hhelp⟩
  | refused hrefused =>
      obtain ⟨error, hread⟩ := hrefused
      rw [hread] at h
      cases h
  | @item item words rest hitem ih =>
      obtain ⟨error, hread⟩ := hitem.read_eq
      rw [hread] at h
      cases hnext : draft.add? item with
      | none =>
          rw [hnext] at h
          cases h
      | some next =>
          rw [hnext] at h
          obtain ⟨items, before, after, final, rfl, hwritten, hadd, hending⟩ := ih h
          refine ⟨item :: items, words ++ before, after, final, ?_, .cons hitem hwritten, ?_,
            hending⟩
          · rw [List.append_assoc]
          · rw [Draft.addAll?_cons, hnext]
            exact hadd

theorem read_eq_some_iff : read draft arguments = .ok (some final) ↔
    ∃ items, Written items arguments ∧ draft.addAll? items = some final := by
  constructor
  · intro h
    obtain ⟨items, before, after, _, rfl, hwritten, hadd, hending⟩ := exists_written h
    cases hending
    exact ⟨items, (List.append_nil before).symm ▸ hwritten, hadd⟩
  · intro h
    obtain ⟨items, hwritten, hadd⟩ := h
    have hread := hwritten.read_append hadd []
    rwa [List.append_nil] at hread

theorem read_eq_none_iff : read draft arguments = .ok none ↔
    ∃ items before word after, arguments = before ++ word :: after ∧ Written items before ∧
      HelpSpelled [word] ∧ (draft.addAll? items).isSome := by
  constructor
  · intro h
    obtain ⟨items, before, _, _, rfl, hwritten, hadd, hending⟩ := exists_written h
    cases hending with
    | help rest hhelp =>
        exact ⟨items, before, _, rest, rfl, hwritten, hhelp, Option.isSome_of_eq_some hadd⟩
  · intro h
    obtain ⟨items, before, word, after, rfl, hwritten, hhelp, hadd⟩ := h
    obtain ⟨final, hadd⟩ := Option.isSome_iff_exists.mp hadd
    obtain ⟨_, ⟨⟩, hread⟩ := hhelp.exists_read
    rw [hwritten.read_append hadd, hread]

end

def Item.eval? : Item → Option String
  | .eval text => some text
  | _ => none

def Item.file? : Item → Option String
  | .file path => some path
  | _ => none

def Item.tapeLength? : Item → Option Nat
  | .tapeLength n => some n
  | _ => none

def Item.cellWidth? : Item → Option CellWidth
  | .cellWidth width => some width
  | _ => none

def Item.brackets? : Item → Option Strategy
  | .brackets strategy => some strategy
  | _ => none

/-- No program is given twice in the same way. -/
structure Distinct (items : List Item) : Prop where
  evals : (items.filterMap Item.eval?).length ≤ 1
  files : (items.filterMap Item.file?).length ≤ 1

theorem distinct_iff {items : List Item} : Distinct items ↔
    (items.filterMap Item.eval?).length ≤ 1 ∧ (items.filterMap Item.file?).length ≤ 1 :=
  ⟨fun h => ⟨h.1, h.2⟩, fun h => ⟨h.1, h.2⟩⟩

instance (items : List Item) : Decidable (Distinct items) :=
  decidable_of_iff _ distinct_iff.symm

/-- What items ask for, the last one of each option. -/
def Draft.ofItems (items : List Item) : Draft where
  settings :=
    { tapeLength := (items.filterMap Item.tapeLength?).getLast?.map .ofNat
      cellWidth := (items.filterMap Item.cellWidth?).getLast?.map fun width => .ofNat width.bits
      brackets := (items.filterMap Item.brackets?).getLast?.map Strategy.name }
  literal := (items.filterMap Item.eval?).head?
  file := (items.filterMap Item.file?).head?
  quiet := decide (.quiet ∈ items)
  frame := decide (.frame ∈ items)

theorem Distinct.of_append {items more : List Item} (h : Distinct (items ++ more)) :
    Distinct items := by
  obtain ⟨hevals, hfiles⟩ := h
  rw [List.filterMap_append, List.length_append] at hevals hfiles
  exact ⟨by omega, by omega⟩

/-- One more item is added to what the items before it ask for. -/
theorem Draft.add?_ofItems {items : List Item} (h : Distinct items) (item : Item) :
    (ofItems items).add? item =
      if Distinct (items ++ [item]) then some (ofItems (items ++ [item])) else none := by
  obtain ⟨hevals, hfiles⟩ := h
  cases item with
  | eval text =>
      cases hlist : items.filterMap Item.eval? <;>
        simp [add?, ofItems, distinct_iff, List.filterMap_cons, Item.eval?, Item.file?,
          Item.tapeLength?, Item.cellWidth?, Item.brackets?, hfiles, hlist]
  | file path =>
      cases hlist : items.filterMap Item.file? <;>
        simp [add?, ofItems, distinct_iff, List.filterMap_cons, Item.eval?, Item.file?,
          Item.tapeLength?, Item.cellWidth?, Item.brackets?, hevals, hlist]
  | _ =>
      simp [add?, ofItems, distinct_iff, List.filterMap_cons, Item.eval?, Item.file?,
        Item.tapeLength?, Item.cellWidth?, Item.brackets?, Settings.withCellWidth,
        Settings.withTapeLength, Settings.withBrackets, hevals, hfiles]

theorem addAll?_eq (items : List Item) :
    ({} : Draft).addAll? items = if Distinct items then some (.ofItems items) else none := by
  -- The last item of an option counts, so items are taken away from the end.
  induction items using List.reverseRecOn with
  | nil => rfl
  | append_singleton items item ih =>
      unfold Draft.addAll? at ih ⊢
      rw [List.foldlM_append, ih]
      by_cases hdistinct : Distinct items
      · rw [if_pos hdistinct, ← Draft.add?_ofItems hdistinct]
        simp
      · have hnot : ¬ Distinct (items ++ [item]) := fun h => hdistinct h.of_append
        rw [if_neg hdistinct, if_neg hnot]
        rfl

section
variable {env : Environment} {arguments : List String}

theorem parse_eq_help_iff : parse env arguments = .ok .help ↔ read {} arguments = .ok none := by
  unfold parse
  rcases read {} arguments with error | _ | draft
  · simp
  · simp
  · cases h : draft.source <;> simp [h]

theorem parse_eq_run_iff {command : Command} : parse env arguments = .ok (.run command) ↔
    ∃ draft, read {} arguments = .ok (some draft) ∧ draft.source = .ok command.source ∧
      command.settings = draft.settings.orElse (.ofEnvironment env) ∧
      command.quiet = draft.quiet ∧ command.frame = draft.frame := by
  obtain ⟨source, settings, quiet, frame⟩ := command
  unfold parse
  rcases read {} arguments with error | _ | draft
  · simp
  · simp
  · cases h : draft.source <;> simp [h, eq_comm]

end

/-- The program that items choose: the one text or the one path among them. -/
inductive Chooses (items : List Item) : ProgramSource → Prop
  | literal {text : String} : items.filterMap Item.eval? = [text] →
      items.filterMap Item.file? = [] → Chooses items (.literal text)
  | file {path : String} : items.filterMap Item.eval? = [] →
      items.filterMap Item.file? = [path] → Chooses items (.file path none)

theorem Chooses.distinct {items : List Item} {source : ProgramSource} (h : Chooses items source) :
    Distinct items := by
  cases h with
  | literal hevals hfiles | file hevals hfiles => constructor <;> simp [hevals, hfiles]

theorem Distinct.source_eq_iff {items : List Item} (h : Distinct items) {source : ProgramSource} :
    (Draft.ofItems items).source = .ok source ↔ Chooses items source := by
  constructor
  · intro hsource
    obtain ⟨hevals, hfiles⟩ := h
    unfold Draft.source Draft.ofItems at hsource
    rcases hevalList : items.filterMap Item.eval? with _ | ⟨text, _ | _⟩ <;>
      rcases hfileList : items.filterMap Item.file? with _ | ⟨path, _ | _⟩ <;>
      simp [hevalList, hfileList] at hsource hevals hfiles
    · subst hsource
      exact .file hevalList hfileList
    · subst hsource
      exact .literal hevalList hfileList
  · intro hchooses
    cases hchooses with
    | literal hevals hfiles | file hevals hfiles =>
        simp [Draft.source, Draft.ofItems, hevals, hfiles]

/-- The arguments are items up to a request for help, and whatever follows it. -/
def AsksForHelp (arguments : List String) : Prop :=
  ∃ items before word after, arguments = before ++ word :: after ∧ Written items before ∧
    HelpSpelled [word] ∧ Distinct items

/-- A command is what items ask for. Of each option the last item counts, and where there is
none, the environment. -/
structure Asks (env : Environment) (items : List Item) (command : Command) : Prop where
  source : Chooses items command.source
  quiet : command.quiet = true ↔ .quiet ∈ items
  frame : command.frame = true ↔ .frame ∈ items
  tapeLength : command.settings.tapeLength =
    ((items.filterMap Item.tapeLength?).getLast?.or
      (env.given "BF_TAPE_LENGTH" parseTapeLength)).map .ofNat
  cellWidth : command.settings.cellWidth =
    ((items.filterMap Item.cellWidth?).getLast?.or
      (env.given "BF_CELL_WIDTH" parseCellWidth)).map fun width => .ofNat width.bits
  brackets : command.settings.brackets =
    ((items.filterMap Item.brackets?).getLast?.or
      (env.given "BF_BRACKETS" parseBrackets)).map Strategy.name

theorem asks_iff {env : Environment} {items : List Item} {command : Command} :
    Asks env items command ↔ Chooses items command.source ∧
      command.settings = (Draft.ofItems items).settings.orElse (.ofEnvironment env) ∧
      command.quiet = (Draft.ofItems items).quiet ∧
      command.frame = (Draft.ofItems items).frame := by
  rw [Settings.eq_iff, Bool.eq_iff_iff (a := command.quiet), Bool.eq_iff_iff (a := command.frame)]
  simp only [Draft.ofItems, Settings.orElse, Settings.ofEnvironment, Option.orElse_eq_orElse,
    Option.orElse_eq_or, ← Option.map_or, decide_eq_true_iff]
  constructor
  · rintro ⟨hsource, hquiet, hframe, htapeLength, hcellWidth, hbrackets⟩
    exact ⟨hsource, ⟨htapeLength, hcellWidth, hbrackets⟩, hquiet, hframe⟩
  · rintro ⟨hsource, ⟨htapeLength, hcellWidth, hbrackets⟩, hquiet, hframe⟩
    exact ⟨hsource, hquiet, hframe, htapeLength, hcellWidth, hbrackets⟩

section
variable {env : Environment} {arguments : List String}

theorem parse_eq_help_iff_asks : parse env arguments = .ok .help ↔ AsksForHelp arguments := by
  rw [parse_eq_help_iff, read_eq_none_iff]
  simp [AsksForHelp, addAll?_eq]

theorem asks_of_addAll? {items : List Item} {draft : Draft} {command : Command}
    (hadd : ({} : Draft).addAll? items = some draft) (hsource : draft.source = .ok command.source)
    (hrest : command.settings = draft.settings.orElse (.ofEnvironment env) ∧
      command.quiet = draft.quiet ∧ command.frame = draft.frame) : Asks env items command := by
  obtain ⟨hdistinct, rfl⟩ : Distinct items ∧ .ofItems items = draft := by
    simpa [addAll?_eq] using hadd
  exact asks_iff.mpr ⟨hdistinct.source_eq_iff.mp hsource, hrest⟩

theorem parse_eq_run_iff_asks {command : Command} :
    parse env arguments = .ok (.run command) ↔
      ∃ items, Written items arguments ∧ Asks env items command := by
  rw [parse_eq_run_iff]
  constructor
  · rintro ⟨draft, hread, hsource, hrest⟩
    obtain ⟨items, hwritten, hadd⟩ := read_eq_some_iff.mp hread
    exact ⟨items, hwritten, asks_of_addAll? hadd hsource hrest⟩
  · rintro ⟨items, hwritten, hasks⟩
    obtain ⟨hchooses, hrest⟩ := asks_iff.mp hasks
    have hdistinct := hchooses.distinct
    refine ⟨.ofItems items, ?_, hdistinct.source_eq_iff.mpr hchooses, hrest⟩
    refine read_eq_some_iff.mpr ⟨items, hwritten, ?_⟩
    rw [addAll?_eq, if_pos hdistinct]

/-- Items that choose a program ask for some command. -/
theorem exists_run_iff : (∃ command, parse env arguments = .ok (.run command)) ↔
    ∃ items source, Written items arguments ∧ Chooses items source := by
  constructor
  · rintro ⟨command, hrun⟩
    obtain ⟨items, hwritten, hasks⟩ := parse_eq_run_iff_asks.mp hrun
    exact ⟨items, command.source, hwritten, hasks.source⟩
  · rintro ⟨items, source, hwritten, hchooses⟩
    let draft := Draft.ofItems items
    refine ⟨⟨source, draft.settings.orElse (.ofEnvironment env), draft.quiet, draft.frame⟩, ?_⟩
    exact parse_eq_run_iff_asks.mpr ⟨items, hwritten, asks_iff.mpr ⟨hchooses, rfl, rfl, rfl⟩⟩

end

/-- The arguments that make sense. Help is asked for behind any items that do not give a
program twice in the same way. A run is asked for by items that give exactly one program,
and these determine the command. All other arguments are a usage error. -/
theorem parse_iff_written (env : Environment) (arguments : List String) :
    (parse env arguments = .ok .help ↔ AsksForHelp arguments) ∧
    (∀ command, parse env arguments = .ok (.run command) ↔
      ∃ items, Written items arguments ∧ Asks env items command) ∧
    ((∃ error, parse env arguments = .error error) ↔ ¬ AsksForHelp arguments ∧
      ¬ ∃ items source, Written items arguments ∧ Chooses items source) := by
  refine ⟨parse_eq_help_iff_asks, fun _ => parse_eq_run_iff_asks, ?_⟩
  rw [← @parse_eq_help_iff_asks env, ← @exists_run_iff env]
  rcases parse env arguments with error | _ | command <;> simp

end Arguments

end Brainfuck
