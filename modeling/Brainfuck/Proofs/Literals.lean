import Brainfuck.Number.Numeral
import Mathlib.Data.Rat.Cast.Order
import Mathlib.Tactic.FieldSimp
import Mathlib.Tactic.IntervalCases
import Mathlib.Tactic.Ring

/-!
# Literals and their values

A literal is a decimal with an optional sign, an optional fraction and an optional exponent, or
digits behind the mark of a radix. The grammar gives each literal its exact value as a rational
number and says nothing about how characters are looked at. Reading a literal gives a numeral
with that value, also between blanks: the parts of a literal are runs of digits, each of them
ended by a character that is no digit.
-/
namespace Brainfuck

namespace Numeral

/-- A digit of a radix and its value. Above nine there are two cases. -/
def DigitOf (radix : Nat) (c : Char) (d : Nat) : Prop :=
  d < radix ∧ (c = Nat.digitChar d ∨ c = (Nat.digitChar d).toUpper)

/-- Digits, the most significant first, and the number that they write. -/
inductive Digits (radix : Nat) : List Char → Nat → Prop
  | nil : Digits radix [] 0
  | concat {cs : List Char} {c : Char} {n d : Nat} : Digits radix cs n → DigitOf radix c d →
      Digits radix (cs ++ [c]) (n * radix + d)

/-- An optional sign; `true` is a minus. -/
inductive Signed : List Char → Bool → Prop
  | missing : Signed [] false
  | plus : Signed ['+'] false
  | minus : Signed ['-'] true

/-- At least one digit, with an optional point. -/
inductive Significand : List Char → ℚ → Prop
  | whole {cs : List Char} {n : Nat} : Digits 10 cs n → cs ≠ [] → Significand cs n
  | pointed {whole fraction : List Char} {n k : Nat} : Digits 10 whole n → Digits 10 fraction k →
      whole ++ fraction ≠ [] →
      Significand (whole ++ '.' :: fraction) (n + k / 10 ^ fraction.length)

/-- An optional exponent with an optional sign. -/
inductive ExponentPart : List Char → Int → Prop
  | missing : ExponentPart [] 0
  | written {mark : Char} {sign cs : List Char} {negative : Bool} {n : Nat} :
      mark = 'e' ∨ mark = 'E' → Signed sign negative → Digits 10 cs n → cs ≠ [] →
      ExponentPart (mark :: (sign ++ cs)) (if negative then -(n : Int) else n)

/-- The mark of a radix behind a zero, in either case. -/
def RadixMark (mark : Char) (radix : Nat) : Prop :=
  (mark = 'x' ∨ mark = 'X') ∧ radix = 16 ∨ (mark = 'o' ∨ mark = 'O') ∧ radix = 8 ∨
    (mark = 'b' ∨ mark = 'B') ∧ radix = 2

def signFactor (negative : Bool) : ℚ := if negative then -1 else 1

/-- A literal and its exact value. -/
inductive Literal : List Char → ℚ → Prop
  | decimal {sign cs es : List Char} {negative : Bool} {y : ℚ} {e : Int} :
      Signed sign negative → Significand cs y → ExponentPart es e →
      Literal (sign ++ (cs ++ es)) (signFactor negative * (y * 10 ^ e))
  | radix {mark : Char} {cs : List Char} {radix n : Nat} :
      RadixMark mark radix → Digits radix cs n → cs ≠ [] → Literal ('0' :: mark :: cs) n

/-- A text is a literal with this value, between blanks. -/
def Writes (text : String) (x : ℚ) : Prop :=
  ∃ before cs after, text.toList = before ++ (cs ++ after) ∧
    (∀ c ∈ before, Text.isBlank c = true) ∧ (∀ c ∈ after, Text.isBlank c = true) ∧ Literal cs x

section
variable {radix : Nat} {c : Char} {d n : Nat} {cs : List Char}

theorem DigitOf.digit?_eq (h : DigitOf radix c d) (hradix : radix ≤ 16) :
    digit? radix c = some d := by
  obtain ⟨hd, hc⟩ := h
  have hsixteen : ∀ d < 16, ∀ c, c = Nat.digitChar d ∨ c = (Nat.digitChar d).toUpper →
      digit? 16 c = some d := by
    intro d hd c hc
    interval_cases d <;> rcases hc with rfl | rfl <;> rfl
  have hvalue := hsixteen d (by omega) c hc
  unfold digit? at hvalue ⊢
  dsimp only at hvalue ⊢
  obtain ⟨hvalue, _⟩ := Option.filter_eq_some_iff.mp hvalue
  rw [hvalue]
  simp [hd]

theorem DigitOf.not_blank (h : DigitOf radix c d) (hradix : radix ≤ 16) :
    Text.isBlank c = false := by
  obtain ⟨hd, hc⟩ := h
  have hsixteen : d < 16 := by omega
  interval_cases d <;> rcases hc with rfl | rfl <;> rfl

/-- Every character of digits is a digit. -/
theorem Digits.exists_digitOf (h : Digits radix cs n) : ∀ c ∈ cs, ∃ d, DigitOf radix c d := by
  induction h with
  | nil => nofun
  | concat _ hdigit ih =>
      intro c hc
      rcases List.mem_append.mp hc with hc | hc
      · exact ih c hc
      · obtain rfl := List.mem_singleton.mp hc
        exact ⟨_, hdigit⟩

theorem Digits.isSome_digit? (h : Digits radix cs n) (hradix : radix ≤ 16) :
    ∀ c ∈ cs, (digit? radix c).isSome = true := by
  intro c hc
  obtain ⟨d, hdigit⟩ := h.exists_digitOf c hc
  rw [hdigit.digit?_eq hradix]
  rfl

theorem Digits.ofDigits_eq (h : Digits radix cs n) (hradix : radix ≤ 16) :
    ofDigits radix cs = n := by
  induction h with
  | nil => rfl
  | concat _ hdigit ih =>
      unfold ofDigits at ih ⊢
      rw [List.foldl_append, ih, List.foldl_cons, List.foldl_nil, hdigit.digit?_eq hradix]
      rfl

theorem Digits.digits?_eq (h : Digits radix cs n) (hradix : radix ≤ 16) (hne : cs ≠ []) :
    digits? radix cs = some n := by
  have hall : isDigits radix cs = true := by
    simp only [isDigits, Bool.and_eq_true, Bool.not_eq_true', List.isEmpty_eq_false_iff,
      List.all_eq_true]
    exact ⟨hne, h.isSome_digit? hradix⟩
  rw [digits?, if_pos hall, h.ofDigits_eq hradix]

/-- Digits behind digits shift these to the left. -/
theorem Digits.append {cs' : List Char} {n' : Nat} (h : Digits radix cs n)
    (h' : Digits radix cs' n') :
    Digits radix (cs ++ cs') (n * radix ^ cs'.length + n') := by
  induction h' with
  | nil => simpa using h
  | @concat cs' c n' d _ hdigit ih =>
      rw [← List.append_assoc]
      have hvalue : n * radix ^ (cs' ++ [c]).length + (n' * radix + d) =
          (n * radix ^ cs'.length + n') * radix + d := by
        rw [List.length_append, List.length_singleton, pow_succ]
        ring
      rw [hvalue]
      exact .concat ih hdigit

end

/-- A run of characters that satisfy a test ends where one does not. -/
theorem takeWhile_dropWhile_append {p : Char → Bool} {cs rest : List Char}
    (h : ∀ c ∈ cs, p c = true) (hrest : ∀ c ∈ rest.head?, p c = false) :
    (cs ++ rest).takeWhile p = cs ∧ (cs ++ rest).dropWhile p = rest := by
  rw [List.takeWhile_append_of_pos h, List.dropWhile_append_of_pos h]
  cases rest with
  | nil => simp
  | cons c rest =>
      have hc : p c = false := hrest c rfl
      simp [hc]

/-- The characters of a decimal. -/
def decimalChars : List Char := "0123456789.eE+-".toList

section
variable {cs sign es rest : List Char} {negative : Bool} {n : Nat} {e : Int} {y : ℚ}

theorem Digits.mem_decimalChars (h : Digits 10 cs n) : ∀ c ∈ cs, c ∈ decimalChars := by
  intro c hc
  obtain ⟨d, hd, hdigit⟩ := h.exists_digitOf c hc
  interval_cases d <;> rcases hdigit with rfl | rfl <;> decide

theorem Signed.mem_decimalChars (h : Signed sign negative) : ∀ c ∈ sign, c ∈ decimalChars := by
  cases h with
  | missing => nofun
  | plus => exact List.forall_mem_singleton.mpr (by decide)
  | minus => exact List.forall_mem_singleton.mpr (by decide)

theorem Significand.mem_decimalChars (h : Significand cs y) : ∀ c ∈ cs, c ∈ decimalChars := by
  cases h with
  | whole hdigits _ => exact hdigits.mem_decimalChars
  | pointed hwhole hfraction _ =>
      intro c hc
      rcases List.mem_append.mp hc with hc | hc
      · exact hwhole.mem_decimalChars c hc
      · rcases List.mem_cons.mp hc with rfl | hc
        · decide
        · exact hfraction.mem_decimalChars c hc

theorem ExponentPart.mem_decimalChars (h : ExponentPart es e) : ∀ c ∈ es, c ∈ decimalChars := by
  cases h with
  | missing => nofun
  | written hmark hsign hdigits _ =>
      intro c hc
      rcases List.mem_cons.mp hc with rfl | hc
      · rcases hmark with rfl | rfl <;> decide
      · rcases List.mem_append.mp hc with hc | hc
        · exact hsign.mem_decimalChars c hc
        · exact hdigits.mem_decimalChars c hc

theorem mem_decimalChars_of_parts (hsign : Signed sign negative) (hcs : Significand cs y)
    (hes : ExponentPart es e) : ∀ c ∈ sign ++ (cs ++ es), c ∈ decimalChars := by
  simp only [List.mem_append]
  rintro c (hc | hc | hc)
  · exact hsign.mem_decimalChars c hc
  · exact hcs.mem_decimalChars c hc
  · exact hes.mem_decimalChars c hc

theorem Significand.ne_nil (h : Significand cs y) : cs ≠ [] := by
  cases h with
  | whole _ hne => exact hne
  | pointed => simp

/-- A significand starts with a digit or with its point. -/
theorem Significand.head_ne_sign (h : Significand cs y) :
    ∀ c ∈ (cs ++ es).head?, c ≠ '-' ∧ c ≠ '+' := by
  have hdigit : ∀ c, (digit? 10 c).isSome = true → c ≠ '-' ∧ c ≠ '+' := by
    rintro c hc
    constructor <;> rintro rfl <;> cases hc
  cases h with
  | @whole cs n hdigits hne =>
      cases cs with
      | nil => exact absurd rfl hne
      | cons c cs =>
          rintro _ ⟨⟩
          exact hdigit c (hdigits.isSome_digit? (by decide) c List.mem_cons_self)
  | @pointed whole fraction n k hwhole _ _ =>
      cases whole with
      | nil =>
          rintro _ ⟨⟩
          decide
      | cons c cs =>
          rintro _ ⟨⟩
          exact hdigit c (hwhole.isSome_digit? (by decide) c List.mem_cons_self)

theorem Signed.sign_append (h : Signed sign negative)
    (hrest : ∀ c ∈ rest.head?, c ≠ '-' ∧ c ≠ '+') :
    Numeral.sign (sign ++ rest) = (negative, rest) := by
  cases h with
  | plus | minus => rfl
  | missing =>
      cases rest with
      | nil => rfl
      | cons c rest =>
          obtain ⟨hminus, hplus⟩ := hrest c rfl
          unfold Numeral.sign
          split
          · next h => exact absurd (List.cons.inj h).1 hminus
          · next h => exact absurd (List.cons.inj h).1 hplus
          · rfl

theorem ExponentPart.exponent?_eq (h : ExponentPart es e) : exponent? es = some e := by
  cases h with
  | missing => rfl
  | @written mark sign cs negative n hmark hsign hdigits hne =>
      have hhead : ∀ c ∈ cs.head?, c ≠ '-' ∧ c ≠ '+' := by
        rw [← List.append_nil cs]
        exact (Significand.whole hdigits hne).head_ne_sign
      rw [exponent?, if_pos hmark, hsign.sign_append hhead]
      dsimp only
      rw [hdigits.digits?_eq (by decide) hne]
      rfl

/-- Behind the digits of a significand its exponent starts with no digit. -/
theorem ExponentPart.head_not_digit (h : ExponentPart es e) :
    ∀ c ∈ es.head?, (digit? 10 c).isSome = false := by
  cases h with
  | missing => nofun
  | written hmark _ _ _ =>
      rintro _ ⟨⟩
      rcases hmark with rfl | rfl <;> rfl

/-- Without a point, the exponent comes right behind the digits. -/
theorem unsigned?_whole (hdigits : Digits 10 cs n) (hne : cs ≠ []) (he : ExponentPart es e)
    (negative : Bool) : unsigned? negative (cs ++ es) = some (.decimal negative n e) := by
  obtain ⟨htake, hdrop⟩ :=
    takeWhile_dropWhile_append (hdigits.isSome_digit? (by decide)) he.head_not_digit
  unfold unsigned?
  dsimp only
  rw [htake, hdrop]
  split
  · cases he with
    | written hmark => rcases hmark with h | h <;> cases h
  · rw [if_neg (by simpa using hne), he.exponent?_eq, List.append_nil,
      hdigits.ofDigits_eq (by decide)]
    simp

/-- Behind a point come the digits of the fraction and then the exponent. -/
theorem unsigned?_pointed {whole fraction : List Char} {k : Nat} (hwhole : Digits 10 whole n)
    (hfraction : Digits 10 fraction k) (hne : whole ++ fraction ≠ []) (he : ExponentPart es e)
    (negative : Bool) :
    unsigned? negative (whole ++ '.' :: fraction ++ es) =
      some (.decimal negative (n * 10 ^ fraction.length + k) (e - fraction.length)) := by
  have hpoint : ∀ c ∈ ('.' :: (fraction ++ es)).head?, (digit? 10 c).isSome = false := by
    rintro _ ⟨⟩
    rfl
  obtain ⟨htake, hdrop⟩ :=
    takeWhile_dropWhile_append (hwhole.isSome_digit? (by decide)) hpoint
  obtain ⟨htake', hdrop'⟩ :=
    takeWhile_dropWhile_append (hfraction.isSome_digit? (by decide)) he.head_not_digit
  have hdigits := (hwhole.append hfraction).ofDigits_eq (by decide)
  rw [List.append_assoc, List.cons_append]
  unfold unsigned?
  dsimp only
  rw [htake, hdrop]
  split
  · next rest hrest =>
      obtain rfl : fraction ++ es = rest := (List.cons.inj hrest).2
      rw [htake', hdrop', if_neg (by simpa using hne), he.exponent?_eq, hdigits]
      rfl
  · next hpoint' => exact absurd rfl (hpoint' _)

/-- A decimal without its sign is read as a coefficient and an exponent with its value. -/
theorem Significand.exists_unsigned? (h : Significand cs y) (he : ExponentPart es e)
    (negative : Bool) :
    ∃ (coefficient : Nat) (exponent : Int),
      unsigned? negative (cs ++ es) = some (.decimal negative coefficient exponent) ∧
        y * 10 ^ e = coefficient * 10 ^ exponent := by
  cases h with
  | @whole _ n hdigits hne => exact ⟨n, e, unsigned?_whole hdigits hne he negative, rfl⟩
  | @pointed whole fraction n k hwhole hfraction hne =>
      refine ⟨_, _, unsigned?_pointed hwhole hfraction hne he negative, ?_⟩
      rw [zpow_sub₀ (by norm_num), zpow_natCast]
      push_cast
      field_simp

theorem Signed.snd_sign_subset (cs : List Char) : (Numeral.sign cs).2 ⊆ cs := by
  unfold Numeral.sign
  split <;> simp

/-- Characters of a decimal announce no radix and are not the word for an infinity. -/
theorem bare?_eq_unsigned? (hcs : ∀ c ∈ cs, c ∈ decimalChars) (hne : cs ≠ []) :
    bare? cs = unsigned? (Numeral.sign cs).1 (Numeral.sign cs).2 := by
  have hradix : ∀ c ∈ decimalChars, radix? '0' c = none := by
    have hall : decimalChars.all (fun c => radix? '0' c = none) = true := by decide
    simpa using hall
  have hinfinity : (Numeral.sign cs).2 ≠ "Infinity".toList := by
    intro heq
    have hmem : 'I' ∈ (Numeral.sign cs).2 := heq ▸ by decide
    have hdecimal := hcs 'I' (Signed.snd_sign_subset cs hmem)
    revert hdecimal
    decide
  unfold bare?
  dsimp only
  split
  · exact absurd rfl hne
  · next zero mark rest =>
      have hmark : radix? zero mark = none := by
        by_cases hzero : zero = '0'
        · rw [hzero]
          exact hradix mark (hcs mark (by simp))
        · exact if_pos hzero
      rw [hmark]
      exact if_neg hinfinity
  · exact if_neg hinfinity

theorem RadixMark.read {mark : Char} {radix : Nat} (h : RadixMark mark radix) :
    radix? '0' mark = some radix ∧ radix ≤ 16 ∧ Text.isBlank mark = false := by
  rcases h with ⟨hmark, rfl⟩ | ⟨hmark, rfl⟩ | ⟨hmark, rfl⟩ <;>
    rcases hmark with rfl | rfl <;> decide

theorem Literal.exists_bare? {x : ℚ} (h : Literal cs x) :
    ∃ (negative : Bool) (coefficient : Nat) (exponent : Int),
      bare? cs = some (.decimal negative coefficient exponent) ∧
        x = signFactor negative * (coefficient * 10 ^ exponent) := by
  cases h with
  | @decimal sign cs es negative y e hsign hcs hes =>
      have hchars := mem_decimalChars_of_parts hsign hcs hes
      have hne : sign ++ (cs ++ es) ≠ [] := by simp [hcs.ne_nil]
      obtain ⟨coefficient, exponent, hunsigned, hvalue⟩ := hcs.exists_unsigned? hes negative
      refine ⟨negative, coefficient, exponent, ?_, by rw [hvalue]⟩
      rw [bare?_eq_unsigned? hchars hne, hsign.sign_append hcs.head_ne_sign]
      exact hunsigned
  | @radix mark cs radix n hmark hdigits hne =>
      obtain ⟨hradix, hle, _⟩ := hmark.read
      refine ⟨false, n, 0, ?_, by simp [signFactor]⟩
      unfold bare?
      dsimp only
      rw [hradix]
      dsimp only
      rw [hdigits.digits?_eq hle hne]
      rfl

/-- No character of a literal is blank. -/
theorem Literal.not_blank {x : ℚ} (h : Literal cs x) : ∀ c ∈ cs, Text.isBlank c = false := by
  have hdecimal : ∀ c ∈ decimalChars, Text.isBlank c = false := by
    have hall : decimalChars.all (fun c => Text.isBlank c = false) = true := by decide
    simpa using hall
  cases h with
  | decimal hsign hcs hes =>
      intro c hc
      exact hdecimal c (mem_decimalChars_of_parts hsign hcs hes c hc)
  | @radix mark cs radix n hmark hdigits hne =>
      obtain ⟨_, hle, hblank⟩ := hmark.read
      simp only [List.mem_cons]
      rintro c (rfl | rfl | hc)
      · rfl
      · exact hblank
      · obtain ⟨d, hdigit⟩ := hdigits.exists_digitOf c hc
        exact hdigit.not_blank hle

theorem Literal.ne_nil {x : ℚ} (h : Literal cs x) : cs ≠ [] := by
  cases h with
  | decimal _ hcs _ => simp [hcs.ne_nil]
  | radix => simp

end

/-- Blanks around characters that are not blank are taken away. -/
theorem trim_between_blanks {before cs after : List Char}
    (hbefore : ∀ c ∈ before, Text.isBlank c = true) (hafter : ∀ c ∈ after, Text.isBlank c = true)
    (hcs : ∀ c ∈ cs, Text.isBlank c = false) (hne : cs ≠ []) :
    Text.trim (before ++ (cs ++ after)) = cs := by
  have hhead : ∀ c ∈ (cs ++ after).head?, Text.isBlank c = false := by
    cases cs with
    | nil => exact absurd rfl hne
    | cons c cs =>
        rintro _ ⟨⟩
        exact hcs c List.mem_cons_self
  have hlast : ∀ c ∈ cs.reverse.head?, Text.isBlank c = false := by
    intro c hc
    exact hcs c (List.mem_reverse.mp (List.mem_of_head? hc))
  have hafter' : ∀ c ∈ after.reverse, Text.isBlank c = true := by
    intro c hc
    exact hafter c (List.mem_reverse.mp hc)
  rw [Text.trim, (takeWhile_dropWhile_append hbefore hhead).2, List.reverse_append,
    (takeWhile_dropWhile_append hafter' hlast).2, List.reverse_reverse]

/-- A text that writes a number is read as a numeral with the value of that number. -/
theorem Writes.exists_parse? {text : String} {x : ℚ} (h : Writes text x) :
    ∃ (negative : Bool) (coefficient : Nat) (exponent : Int),
      parse? text = some (.decimal negative coefficient exponent) ∧
        x = signFactor negative * (coefficient * 10 ^ exponent) := by
  obtain ⟨before, cs, after, htext, hbefore, hafter, hliteral⟩ := h
  rw [parse?, htext, trim_between_blanks hbefore hafter hliteral.not_blank hliteral.ne_nil]
  exact hliteral.exists_bare?

end Numeral

end Brainfuck
