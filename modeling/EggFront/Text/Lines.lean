/-!
# Lines of a text

`lines` cuts a text at its line breaks, as reports and the printer count lines.
A line break is a line feed, a carriage return, the pair `\r\n` (one break), a
vertical tab, a form feed, the separators `\x1c`, `\x1d`, `\x1e`, the next-line
character `\x85`, and the line and paragraph separators `U+2028` and `U+2029`.
A break ends the line before it; so a text that ends with a break has no empty
line after it, and the empty text has no lines at all.
-/

namespace EggFront.Text

/-- Whether a character breaks a line. -/
def isLineBreak (c : Char) : Bool :=
  c = '\n' || c = '\r' || c = '\x0b' || c = '\x0c' || c = '\x1c' || c = '\x1d' || c = '\x1e' ||
    c = '\x85' || c = '\u2028' || c = '\u2029'

/-- The lines of `cs`, where `line` holds the characters of the current line so
far, last first. -/
def linesFrom : List Char → List Char → List (List Char)
  | [], line => if line.isEmpty then [] else [line.reverse]
  | '\r' :: '\n' :: r, line => line.reverse :: linesFrom r []
  | c :: r, line => if isLineBreak c then line.reverse :: linesFrom r [] else linesFrom r (c :: line)

/-- The lines of a text, without their breaks. -/
def lines (s : String) : List String :=
  (linesFrom s.toList []).map String.ofList

example : lines "a\nb\r\nc\rd" = ["a", "b", "c", "d"] := by decide
example : lines "a\n\n" = ["a", ""] := by decide
example : lines "" = [] := by decide

end EggFront.Text
