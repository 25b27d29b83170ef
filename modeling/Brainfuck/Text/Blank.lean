/-!
# Blank characters

The characters that may surround a number on the command line or in an environment
variable: the blanks and line ends of ASCII, the Unicode space separators, the line and
paragraph separators, and the byte order mark. The next-line control U+0085 and the
Mongolian vowel separator U+180E are not among them.
-/
namespace Brainfuck.Text

def isBlank (c : Char) : Bool :=
  let n := c.toNat
  (0x09 ≤ n && n ≤ 0x0D) || n == 0x20 || n == 0xA0 || n == 0x1680 ||
    (0x2000 ≤ n && n ≤ 0x200A) || n == 0x2028 || n == 0x2029 || n == 0x202F ||
    n == 0x205F || n == 0x3000 || n == 0xFEFF

/-- The characters without the blanks at either end. -/
def trim (cs : List Char) : List Char :=
  ((cs.dropWhile isBlank).reverse.dropWhile isBlank).reverse

end Brainfuck.Text
