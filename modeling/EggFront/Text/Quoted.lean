import EggFront.Text.Printable

/-!
# Quoted text

How a report shows a lexeme: between quote marks, with the marks and
backslashes inside escaped and every character that is not printable written as
a hexadecimal escape. The mark is the single quote, unless the text holds a
single quote and no double quote; so a text is never escaped more than it must be.

* backslash, tab, line feed and carriage return become `\\`, `\t`, `\n`, `\r`;
* the chosen mark becomes a backslash and the mark;
* other non-printable characters become `\xhh`, `\uhhhh` or `\Uhhhhhhhh`, by
  the fewest of those widths that holds the code point, in lowercase hex;
* all else stands as it is.
-/

namespace EggFront.Text

/-- The quote mark for a text: `'`, unless the text has `'` and no `"`. -/
def quoteMark (cs : List Char) : Char :=
  if cs.contains '\'' && !cs.contains '"' then '"' else '\''

/-- The lowercase hex digit of a number below 16. -/
def hexDigit (n : Nat) : Char :=
  if n < 10 then Char.ofNat (48 + n) else Char.ofNat (87 + n)

/-- The last `width` hex digits of `n`, zero padded. -/
def hexDigits : Nat → Nat → List Char
  | 0, _ => []
  | w + 1, n => hexDigits w (n / 16) ++ [hexDigit (n % 16)]

/-- How one character of a text quoted with mark `q` is written. -/
def escapeChar (q c : Char) : List Char :=
  if c = '\\' then ['\\', '\\']
  else if c = '\t' then ['\\', 't']
  else if c = '\n' then ['\\', 'n']
  else if c = '\r' then ['\\', 'r']
  else if c = q then ['\\', q]
  else if printable.contains c then [c]
  else if c.toNat < 0x100 then '\\' :: 'x' :: hexDigits 2 c.toNat
  else if c.toNat < 0x10000 then '\\' :: 'u' :: hexDigits 4 c.toNat
  else '\\' :: 'U' :: hexDigits 8 c.toNat

/-- A text between quote marks, escaped as the module header says. -/
def quote (s : String) : String :=
  let cs := s.toList
  let q := quoteMark cs
  String.ofList (q :: cs.flatMap (escapeChar q) ++ [q])

example : hexDigits 2 0xa0 = ['a', '0'] := by decide
example : quoteMark "a'b".toList = '"' := by decide

end EggFront.Text
