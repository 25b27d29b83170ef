import Brainfuck.Proofs.ArgumentGrammar

/-!
# Values joined to their flags

A long flag takes the same value from its own argument, behind an equals sign, and from the
next argument. What the value looks like does not matter, and neither do the arguments around
the two, as long as those before them leave no flag without its value: such a flag would take
the first argument of the pair for its own.

Reading is followed along the arguments in front. An argument is read in the same way whatever
comes behind it, and a flag that takes the next argument together with that argument. So two
ways to go on that are read alike from every draft are read alike behind such a front.
-/
namespace Brainfuck

namespace Arguments

/-- Whether an argument is a flag that takes the next argument as its value. -/
def takesNext (argument : String) : Bool := (ValueFlag.ofText? argument).isSome

/-- Whether the last of the arguments is a flag whose value is still to come. A flag that is
itself a value awaits nothing. -/
def awaitsValue : List String → Bool
  | [] => false
  | [argument] => takesNext argument
  | argument :: value :: rest =>
    if takesNext argument then awaitsValue rest else awaitsValue (value :: rest)

section
variable {argument : String} {arguments others : List String}

/-- Nothing is joined to a flag that takes the next argument. -/
theorem split_of_takesNext (h : takesNext argument = true) : split argument = (argument, none) := by
  obtain ⟨flag, hflag⟩ := Option.isSome_iff_exists.mp h
  rcases ValueFlag.eq_of_ofText? hflag with rfl | ⟨_, rfl⟩
  · cases flag <;> rfl
  · rfl

theorem Switch.ofText?_of_takesNext (h : takesNext argument = true) :
    Switch.ofText? argument = none := by
  obtain ⟨flag, hflag⟩ := Option.isSome_iff_exists.mp h
  rcases ValueFlag.eq_of_ofText? hflag with rfl | ⟨_, rfl⟩
  · cases flag <;> rfl
  · rfl

/-- A flag and its value are read in the same way whatever comes behind the value. -/
theorem read_pair_congr (h : takesNext argument = true) (value : String)
    (hread : ∀ draft, read draft arguments = read draft others) (draft : Draft) :
    read draft (argument :: value :: arguments) = read draft (argument :: value :: others) := by
  obtain ⟨flag, hflag⟩ := Option.isSome_iff_exists.mp h
  have hsplit := split_of_takesNext h
  have hswitch := Switch.ofText?_of_takesNext h
  rw [read_value_separate hsplit hswitch hflag, read_value_separate hsplit hswitch hflag]
  simp only [hread]

/-- Any other argument is read in the same way whatever comes behind it. -/
theorem read_cons_congr (h : takesNext argument = false)
    (hread : ∀ draft, read draft arguments = read draft others) (draft : Draft) :
    read draft (argument :: arguments) = read draft (argument :: others) := by
  rcases hsplit : split argument with ⟨flag, joined⟩
  cases hswitch : Switch.ofText? flag with
  | some switch =>
      rw [read_switch hsplit hswitch, read_switch hsplit hswitch]
      cases switch with
      | help => rfl
      | quiet | frame => exact hread _
  | none =>
      cases hflag : ValueFlag.ofText? flag with
      | none =>
          rw [read_plain hsplit hswitch hflag, read_plain hsplit hswitch hflag]
          simp only [hread]
      | some valueFlag =>
          cases joined with
          | some value =>
              rw [read_value_joined hsplit hswitch hflag, read_value_joined hsplit hswitch hflag]
              simp only [hread]
          | none =>
              -- A flag without a value in its own argument takes the next one.
              have hargument : argument = flag := by
                rcases split_cases argument with halone | ⟨_, _, _, hjoined, _⟩
                · exact (Prod.mk.inj (halone.symm.trans hsplit)).1
                · cases hjoined.symm.trans hsplit
              rw [hargument, takesNext, hflag] at h
              cases h

/-- Behind arguments that leave no flag without its value, what is read alike from every
draft is read alike. -/
theorem read_append_congr {front : List String} (h : awaitsValue front = false)
    (hread : ∀ draft, read draft arguments = read draft others) (draft : Draft) :
    read draft (front ++ arguments) = read draft (front ++ others) := by
  fun_induction awaitsValue front generalizing draft with
  | case1 => exact hread draft
  | case2 argument => exact read_cons_congr h hread draft
  | case3 argument value rest htakes ih => exact read_pair_congr htakes value (ih h) draft
  | case4 argument value rest htakes ih =>
      exact read_cons_congr (Bool.eq_false_iff.mpr htakes) (ih h) draft

end

/-- A value joined to its flag and the same value in the next argument ask for the same, and
where one is refused the other is refused with the same error. -/
theorem parse_joined_eq_separate (env : Environment) (flag : ValueFlag) (value : String)
    {front : List String} (h : awaitsValue front = false) (rest : List String) :
    parse env (front ++ [flag.name ++ "=" ++ value] ++ rest) =
      parse env (front ++ [flag.name, value] ++ rest) := by
  have hjoined : Valued flag.name value [flag.name ++ "=" ++ value] := .joined
  have hseparate : Valued flag.name value [flag.name, value] := .separate
  have hread : ∀ draft, read draft ([flag.name ++ "=" ++ value] ++ rest) =
      read draft ([flag.name, value] ++ rest) := by
    intro draft
    rw [hjoined.read_eq, hseparate.read_eq]
  unfold parse
  rw [List.append_assoc, List.append_assoc, read_append_congr h hread]

/-- The text in front is a flag by its looks and a value by its place, and the joined value
starts with a dash, holds an equals sign and is refused. -/
theorem parse_joined_behind_flag_as_value :
    awaitsValue ["-q", "-e", "--eval"] = false ∧
      parse (fun _ => none) ["-q", "-e", "--eval", "--brackets=-=scan", "--frame"] =
        parse (fun _ => none) ["-q", "-e", "--eval", "--brackets", "-=scan", "--frame"] ∧
      parse (fun _ => none) ["-q", "-e", "--eval", "--brackets", "-=scan", "--frame"] =
        .error (.invalidValue (.brackets "-=scan")) := by
  have hfront : awaitsValue ["-q", "-e", "--eval"] = false := by decide
  exact ⟨hfront, parse_joined_eq_separate (fun _ => none) .brackets "-=scan" hfront ["--frame"],
    by decide⟩

end Arguments

end Brainfuck
