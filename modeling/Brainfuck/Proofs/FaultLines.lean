import Brainfuck.Proofs.Carets
import Mathlib.Data.List.DropRight
import Mathlib.Data.List.ReduceOption

/-!
# The lines of an error log

A line of the error log is a heading, the position and a newline. It is in ASCII and has no
other newline, however the position is written. If the position is written in full, the digits at
the end of the line are the position, and the heading tells the fault among those at that
position.

A log is cut into its lines at the newlines. The faults that it reports can therefore be read
back from it, and different lists of faults give different logs.
-/
namespace Brainfuck

/-- An ASCII character other than the newline. -/
def Plain (c : Char) : Prop := c.toNat ≤ 127 ∧ c ≠ '\n'

instance : DecidablePred Plain := fun c => inferInstanceAs (Decidable (c.toNat ≤ 127 ∧ c ≠ '\n'))

def PlainText (text : List Char) : Prop := ∀ c ∈ text, Plain c

-- By the characters of the text; an instance that tries all characters there are is useless.
instance : DecidablePred PlainText := fun text => List.decidableBAll Plain text

theorem PlainText.mono {part text : List Char} (h : PlainText text) (hpart : part ⊆ text) :
    PlainText part :=
  fun c hc => h c (hpart hc)

theorem PlainText.append {front rest : List Char} (hfront : PlainText front)
    (hrest : PlainText rest) : PlainText (front ++ rest) :=
  List.forall_mem_append.mpr ⟨hfront, hrest⟩

theorem PlainText.cons {c : Char} {text : List Char} (hc : Plain c) (htext : PlainText text) :
    PlainText (c :: text) :=
  List.forall_mem_cons.mpr ⟨hc, htext⟩

theorem PlainText.newline_notMem {text : List Char} (h : PlainText text) : '\n' ∉ text :=
  fun hmem => (h '\n' hmem).2 rfl

theorem plainText_toDigits (n : Nat) : PlainText (Nat.toDigits 10 n) := by
  intro c hc
  have hdigit := Nat.isDigit_of_mem_toDigits (by decide) (by decide) hc
  obtain ⟨hlower, hupper⟩ := Char.isDigit_iff_toNat.mp hdigit
  refine ⟨Nat.le_trans hupper (by decide), ?_⟩
  rintro rfl
  exact absurd hlower (by decide)

theorem plainText_toString (n : Nat) : PlainText (toString n).toList := by
  have hdigits : (toString n).toList = Nat.toDigits 10 n := by simp
  rw [hdigits]
  exact plainText_toDigits n

theorem Decimal.plainText_layout (d : Decimal) : PlainText d.layout.toList := by
  have hdigits : PlainText d.significantDigits := by
    apply (plainText_toDigits d.coefficient).mono
    intro c hc
    exact List.mem_reverse.mp ((List.dropWhile_sublist _).mem (List.mem_reverse.mp hc))
  have hzeros : ∀ count, PlainText (List.replicate count '0') := by
    intro count c hc
    rw [List.eq_of_mem_replicate hc]
    decide
  unfold layout
  dsimp only
  split
  · rw [String.toList_ofList]
    exact hdigits.append (hzeros _)
  split
  · rw [String.toList_ofList]
    exact (hdigits.mono (List.take_subset _ _)).append
      (.cons (by decide) (hdigits.mono (List.drop_subset _ _)))
  split
  · rw [String.toList_ofList]
    exact .cons (by decide) (.cons (by decide) ((hzeros _).append hdigits))
  · rw [String.toList_ofList]
    refine .append ?_ (.cons (by decide) (.cons ?_ (plainText_toDigits _)))
    · split
      · rename_i hmany
        rw [hmany] at hdigits
        obtain ⟨hfirst, hmore⟩ := List.forall_mem_cons.mp hdigits
        exact .cons hfirst (.cons (by decide) hmore)
      · exact hdigits
    · split <;> decide

theorem Binary64.plainText_text (x : Binary64) : PlainText x.text.toList := by
  cases x with
  | nan => decide
  | infinity negative => cases negative <;> decide
  | finite negative ordinal =>
      unfold text
      dsimp only
      split
      · decide
      · rw [String.toList_append]
        refine .append ?_ (Decimal.plainText_layout _)
        cases negative <;> decide

theorem plainText_integerText (z : Int) : PlainText (integerText z).toList := by
  unfold integerText
  split
  · cases z with
    | ofNat n => exact plainText_toString n
    | negSucc n =>
        change PlainText ("-" ++ toString (n + 1)).toList
        rw [String.toList_append]
        exact .append (by decide) (plainText_toString (n + 1))
  · exact Binary64.plainText_text _

namespace Fault

/-- The description of a fault up to the position. -/
def phrase : Fault → String
  | .outOfBounds _ direction => s!"data pointer moved {direction.name} out of bounds at char "
  | .missingClosing _ => "missing closing bracket for opening bracket at char "
  | .missingOpening _ => "missing opening bracket for closing bracket at char "

/-- The line of a fault up to the position. -/
def heading (fault : Fault) : List Char := "error: ".toList ++ fault.phrase.toList

/-- The line of a fault without its newline. -/
def body (fault : Fault) : List Char := fault.heading ++ (integerText fault.position).toList

theorem toList_line (fault : Fault) : fault.line.toList = fault.body ++ ['\n'] := by
  have hdescribe : fault.describe = fault.phrase ++ integerText fault.position := by
    cases fault <;> rfl
  have hline : fault.line = "error: " ++ fault.phrase ++ integerText fault.position ++ "\n" := by
    change "error: " ++ fault.describe ++ "\n" = _
    rw [hdescribe, String.append_assoc, String.append_assoc, String.append_assoc,
      String.append_assoc]
  rw [hline, String.toList_append, String.toList_append, String.toList_append]
  rfl

/-- A heading has plain characters only and does not end in a digit. -/
theorem heading_plain (fault : Fault) :
    PlainText fault.heading ∧ fault.heading.rtakeWhile Char.isDigit = [] := by
  rcases fault with ⟨z, _ | _⟩ | z | z <;> unfold heading phrase <;>
    simp only [Direction.name, toString, String.toList_append] <;>
    repeat rw [String.toList_ofList]
  all_goals decide

theorem plainText_body (fault : Fault) : PlainText fault.body :=
  fault.heading_plain.1.append (plainText_integerText fault.position)

variable {fault other : Fault}

/-- At one position the heading tells the fault. -/
theorem eq_of_heading (h : fault.heading = other.heading)
    (hposition : fault.position = other.position) : fault = other := by
  rcases fault with ⟨z, _ | _⟩ | z | z <;> rcases other with ⟨z', _ | _⟩ | z' | z' <;>
    obtain rfl : z = z' := hposition <;> first | rfl | unfold heading phrase at h
  -- Twelve pairs of different headings are left.
  all_goals
    simp only [Direction.name, toString, String.toList_append] at h
    repeat rw [String.toList_ofList] at h
    exact absurd h (by decide)

/-- The position is a natural number that is written in full. -/
def InRange (fault : Fault) : Prop := 0 ≤ fault.position ∧ fault.position < 2 ^ 53

theorem InRange.toList_integerText (h : fault.InRange) :
    (integerText fault.position).toList = Nat.toDigits 10 fault.position.toNat := by
  obtain ⟨n, hn⟩ := Int.eq_ofNat_of_zero_le h.1
  have hsafe : n ≤ Binary64.maxSafeInteger := by
    have hlt := h.2
    unfold Binary64.maxSafeInteger
    omega
  rw [hn, integerText_natCast hsafe]
  simp

/-- The digits at the end of a line are the position. -/
theorem InRange.rtakeWhile_body (h : fault.InRange) :
    fault.body.rtakeWhile Char.isDigit = Nat.toDigits 10 fault.position.toNat := by
  have hdigits : ∀ c ∈ (Nat.toDigits 10 fault.position.toNat).reverse, c.isDigit := by
    intro c hc
    exact Nat.isDigit_of_mem_toDigits (by decide) (by decide) (List.mem_reverse.mp hc)
  have hheading := List.reverse_eq_nil_iff.mp fault.heading_plain.2
  rw [body, h.toList_integerText, List.rtakeWhile, List.reverse_append,
    List.takeWhile_append_of_pos hdigits, hheading, List.append_nil, List.reverse_reverse]

/-- The faults at a position. -/
def allAt (position : Int) : List Fault :=
  [.outOfBounds position .left, .outOfBounds position .right, .missingClosing position,
    .missingOpening position]

theorem mem_allAt_iff {position : Int} : fault ∈ allAt position ↔ fault.position = position := by
  rcases fault with ⟨z, _ | _⟩ | z | z <;> simp [allAt, Fault.position]

/-- The fault that a line without its newline reports. -/
def ofBody? (line : List Char) : Option Fault :=
  (allAt (Nat.ofDigitChars 10 (line.rtakeWhile Char.isDigit) 0)).find? fun fault =>
    fault.body == line

theorem InRange.ofBody?_body (h : fault.InRange) : ofBody? fault.body = some fault := by
  have hposition : (Nat.ofDigitChars 10 (fault.body.rtakeWhile Char.isDigit) 0 : Int) =
      fault.position := by
    rw [h.rtakeWhile_body, Nat.ofDigitChars_ten_toDigits, Int.toNat_of_nonneg h.1]
  rw [ofBody?, hposition]
  cases hfound : (allAt fault.position).find? fun other => other.body == fault.body with
  | none => exact absurd (List.find?_eq_none.mp hfound fault (mem_allAt_iff.mpr rfl)) (by simp)
  | some found =>
      have hsame := mem_allAt_iff.mp (List.mem_of_find?_eq_some hfound)
      have hbody : found.body = fault.body := by simpa using List.find?_some hfound
      rw [body, body, hsame] at hbody
      rw [eq_of_heading (List.append_cancel_right hbody) hsame]

/-- The log that the lines of some faults make up. -/
def log (faults : List Fault) : String := String.join (faults.map line)

theorem log_reduceOption_cons (report : Option Fault) (reports : List (Option Fault)) :
    log (report :: reports).reduceOption = log report.toList ++ log reports.reduceOption := by
  cases report <;> simp [log]

theorem inRange_reduceOption_cons {report : Option Fault} {reports : List (Option Fault)}
    (hreport : ∀ fault, report = some fault → fault.InRange)
    (hreports : ∀ fault ∈ reports.reduceOption, fault.InRange) :
    ∀ fault ∈ (report :: reports).reduceOption, fault.InRange := by
  cases report with
  | none => exact hreports
  | some fault => exact List.forall_mem_cons.mpr ⟨hreport fault rfl, hreports⟩

/-- The faults that a log reports, in order. -/
def reportedIn (log : String) : List Fault := (log.toList.splitOn '\n').filterMap ofBody?

theorem reportedIn_log {faults : List Fault} (h : ∀ fault ∈ faults, fault.InRange) :
    reportedIn (log faults) = faults := by
  unfold reportedIn log
  rw [String.toList_join]
  induction faults with
  | nil => rfl
  | cons fault faults ih =>
      obtain ⟨hfault, hfaults⟩ := List.forall_mem_cons.mp h
      have hnewline := fault.plainText_body.newline_notMem
      rw [List.map_cons, List.flatMap_cons, toList_line, List.append_assoc, List.singleton_append,
        List.splitOn_append_cons_self, List.splitOn_eq_singleton hnewline, List.singleton_append,
        List.filterMap_cons_some hfault.ofBody?_body, ih hfaults]

end Fault

end Brainfuck
