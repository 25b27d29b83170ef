import Brainfuck.Text.Utf16

/-!
# Quoted text

Text as it is quoted inside a message. Control characters and backslashes are escaped. The
quotes are single, unless the text holds a single quote: then they are double, or
backticks if it holds double quotes as well, and only a text that rules out all three
keeps single quotes and escapes its own.

Lengths are counted in UTF-16 units. A long text is quoted line by line, the lines joined
by plus signs, and a quotation beyond a limit is cut off.
-/
namespace Brainfuck.Quoted

open Brainfuck.Utf16 (units length)

/-- The longest beginning of a text that fits a number of units. -/
def clip : Nat → List Char → List Char
  | _, [] => []
  | limit, c :: cs => if units c ≤ limit then c :: clip (limit - units c) cs else []

def hexDigit (n : Nat) : Char := Char.ofNat (if n < 10 then n + '0'.toNat else n - 10 + 'A'.toNat)

/-- A character as it stands between the given quotes. -/
def escape (quote c : Char) : List Char :=
  let n := c.toNat
  if c = '\n' then ['\\', 'n']
  else if c = '\t' then ['\\', 't']
  else if c = '\r' then ['\\', 'r']
  else if n = 8 then ['\\', 'b']
  else if n = 12 then ['\\', 'f']
  else if n < 0x20 ∨ (0x7F ≤ n ∧ n ≤ 0x9F) then ['\\', 'x', hexDigit (n / 16), hexDigit (n % 16)]
  else if c = '\\' then ['\\', '\\']
  else if c = '\'' ∧ quote = '\'' then ['\\', '\'']
  else [c]

/-- Whether a dollar sign stands right before an opening brace. -/
def hasPlaceholder : List Char → Bool
  | [] => false
  | c :: cs => (c == '$' && cs.head? == some '\x7b') || hasPlaceholder cs

def quoteFor (cs : List Char) : Char :=
  if !cs.contains '\'' then '\''
  else if !cs.contains '"' then '"'
  else if !cs.contains '\x60' && !hasPlaceholder cs then '\x60'
  else '\''

/-- A text between quotes, on one line. -/
def line (cs : List Char) : List Char :=
  let quote := quoteFor cs
  quote :: (cs.flatMap (escape quote) ++ [quote])

/-- The lines of a text, each with its newline. -/
def lines (cs : List Char) : List (List Char) :=
  cs.foldr (fun c acc =>
    if c = '\n' then [c] :: acc
    else
      match acc with
      | first :: rest =>
        (c :: first) :: rest
      | [] => [[c]]) []

/-- The length up to which a text is quoted on one line. -/
def maxLine : Nat := 124

/-- The length from which on a text is not looked at. -/
def maxText : Nat := 10000

def quote (text : String) : String :=
  let cs := clip maxText text.toList
  if length cs ≤ maxLine then String.ofList (line cs)
  else String.ofList (List.intercalate " +\n  ".toList ((lines cs).map line))

/-- A text in quotes, cut off behind a number of units. -/
def abbreviate (limit : Nat) (text : String) : String :=
  let cs := (quote text).toList
  if length cs ≤ limit then String.ofList cs else String.ofList (clip limit cs ++ ['.', '.', '.'])

end Brainfuck.Quoted
