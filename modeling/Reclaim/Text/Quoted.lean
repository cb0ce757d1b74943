import Reclaim.Text.Extending
import Reclaim.Text.Ignorable

/-!
# Quoted text

A quoted text stands between double quotes.  A quote or a backslash inside is written after a
backslash, line breaks, carriage returns, tabs and the null character by their letters, and other
control characters and characters that a reader may fail to see by their hexadecimal numbers in
braces.
-/

namespace Reclaim.Text

/-- A character's number in hexadecimal, in braces after `\u`. -/
def numbered (c : Char) : String := "\\u\x7b" ++ String.ofList (Nat.toDigits 16 c.toNat) ++ "\x7d"

/-- Whether `c` is a control character. -/
def isControl (c : Char) : Bool :=
  decide (c.toNat < 0x20) || (decide (0x7F ≤ c.toNat) && decide (c.toNat < 0xA0))

/-- Whether `c` is a sound mark of half-width Katakana.  These extend the character before them but
are drawn in a box of their own. -/
def isSoundMark (c : Char) : Bool := c == '\uff9e' || c == '\uff9f'

/-- Whether a reader may fail to see `c`, because it shows nothing or merges with the character
before it. -/
def isHidden (c : Char) : Bool := isIgnorable c || (extendsCluster c && !isSoundMark c)

/-- A character as it is written inside quotes. -/
def escaped (c : Char) : String :=
  match c with
  | '"' => "\\\""
  | '\\' => "\\\\"
  | '\n' => "\\n"
  | '\r' => "\\r"
  | '\t' => "\\t"
  | '\x00' => "\\0"
  | c => if isControl c || isHidden c then numbered c else c.toString

/-- A text in quotes. -/
def quoted (s : String) : String := "\"" ++ String.join (s.toList.map escaped) ++ "\""

example : quoted "a\"b\n" = "\"a\\\"b\\n\"" := by decide
example : quoted "e\u0301" = "\"e\\u\x7b301\x7d\"" := by decide

end Reclaim.Text
