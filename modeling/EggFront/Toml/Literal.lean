import EggFront.Toml.Value
import EggFront.Toml.Error
import EggFront.Decimal.Nearest

/-!
# Literals of a TOML document

The readers here take one literal from the front of the characters left in a
document: a string in any of its four forms, a number, a date, a time or a
date-time. Each answers with a `Taken`: what it read and the characters after
it, a suffix of those it was given, so that loops over readers end by the
number of characters left. A reader that fails names the problem and where.

The forms follow TOML 1.0:

* strings: `"basic"` with escapes, `'literal'` without, and the multi-line
  `"""…"""` and `'''…'''`, whose first newline is dropped and which may end in
  up to two extra quotes; control characters other than tab (and newline in
  multi-line strings) are refused;
* numbers: decimal integers with single underscores between digits, `0x`, `0o`
  and `0b` integers, decimal floats with a fraction, an exponent or both, and
  `inf` and `nan` with an optional sign; a float is the binary64 value nearest
  to the decimal (`Decimal.Dec.nearestBits`);
* `YYYY-MM-DD`, optionally followed by `T`, `t` or a space and a time, and then
  optionally by `Z`, `z` or `±HH:MM`; times are `HH:MM:SS` with an optional
  fraction of which the first six digits count. A date that does not exist is
  refused.
-/

namespace EggFront.Toml

/-- What a reader took from the front of `cs`: a value, and the characters after it. -/
structure Taken (cs : List Char) (α : Type) where
  value : α
  rest : List Char
  suffix : rest <:+ cs

/-- A reader's answer on `cs`: what it took, or the first problem. -/
abbrev Take (cs : List Char) (α : Type) := Except DecodeError (Taken cs α)

namespace Taken

variable {cs ds : List Char} {α β : Type}

/-- The same reading, seen from characters that the ones it started on end. -/
def widen (t : Taken ds α) (h : ds <:+ cs) : Taken cs α := ⟨t.value, t.rest, t.suffix.trans h⟩

def map (f : α → β) (t : Taken cs α) : Taken cs β := ⟨f t.value, t.rest, t.suffix⟩

/-- The reading with its rest moved on past the characters where `p` holds. -/
def skip (p : Char → Bool) (t : Taken cs α) : Taken cs α :=
  ⟨t.value, t.rest.dropWhile p, (List.dropWhile_suffix p).trans t.suffix⟩

theorem length_le (t : Taken cs α) : t.rest.length ≤ cs.length := t.suffix.length_le

end Taken

/-- Stops reading with a problem found where `rest` is left. -/
def stopAt {α : Type} (p : Problem) (rest : List Char) : Except DecodeError α :=
  .error ⟨p, rest.length⟩

/-! ## Characters -/

/-- Space and tab. -/
def isBlank (c : Char) : Bool := c == ' ' || c == '\t'

def isBlankOrNewline (c : Char) : Bool := isBlank c || c == '\n'

/-- The control characters of ASCII, delete included. -/
def isControl (c : Char) : Bool := c.toNat < 32 || c.toNat == 127

/-- What a comment, a one-line string or a literal key may not hold. -/
def illegalInLine (c : Char) : Bool := isControl c && c != '\t'

/-- What a multi-line string may not hold. -/
def illegalInLines (c : Char) : Bool := isControl c && c != '\t' && c != '\n'

/-- Letters and digits of ASCII, `-` and `_`. -/
def isBareKeyChar (c : Char) : Bool := c.isAlphanum || c == '-' || c == '_'

def isHexDigit (c : Char) : Bool :=
  c.isDigit || ('a' ≤ c && c ≤ 'f') || ('A' ≤ c && c ≤ 'F')

/-- The value of a digit in base 16 (and so in every smaller base). -/
def digitValue (c : Char) : Nat :=
  if c.isDigit then c.toNat - '0'.toNat
  else if 'a' ≤ c && c ≤ 'f' then c.toNat - 'a'.toNat + 10
  else c.toNat - 'A'.toNat + 10

/-- The number that digits spell in a base. -/
def digitsValue (base : Nat) (ds : List Char) : Nat :=
  ds.foldl (fun n c => n * base + digitValue c) 0

/-- Whether a code point is a Unicode scalar value: not a surrogate, not past `0x10FFFF`. -/
def isScalar (n : Nat) : Bool := n < 0xD800 || (0xE000 ≤ n && n ≤ 0x10FFFF)

/-! ## Skipping -/

/-- The characters before the first place where `stop` starts, if it does. -/
def before? (stop : List Char) : List Char → Option (List Char)
  | [] => none
  | c :: r => if stop.isPrefixOf (c :: r) then some [] else (before? stop r).map (c :: ·)

/-- Reads up to the first place where `stop` starts, refusing the characters
`illegal` holds of on the way. With no `stop` ahead, it reads to the end, or
fails when `atEndFails`. -/
def skipUntil (stop : List Char) (illegal : Char → Bool) (atEndFails : Bool)
    (cs : List Char) : Take cs (List Char) :=
  let seg? := before? stop cs
  if seg?.isNone && atEndFails then stopAt (.expected (String.ofList stop)) []
  else
    let seg := seg?.getD cs
    match seg.find? illegal with
    | some c => stopAt (.invalidCharacter c) (cs.dropWhile fun x => !illegal x)
    | none => .ok ⟨seg, cs.drop seg.length, List.drop_suffix _ _⟩

/-- Skips a comment, up to the newline that ends it. -/
def skipComment : (cs : List Char) → Take cs Unit
  | '#' :: r => (skipUntil ['\n'] illegalInLine false r).map fun t =>
    (t.widen (List.suffix_cons _ _)).map fun _ => ()
  | cs => .ok ⟨(), cs, List.suffix_refl cs⟩

/-! ## Strings -/

/-- The character an escape `\c` stands for, for the escapes of one letter. -/
def simpleEscape? : Char → Option Char
  | 'b' => some '\x08'
  | 't' => some '\t'
  | 'n' => some '\n'
  | 'f' => some '\x0c'
  | 'r' => some '\r'
  | '"' => some '"'
  | '\\' => some '\\'
  | _ => none

/-- Reads the `n` hexadecimal digits of a `\u` or `\U` escape. -/
def hexChar (n : Nat) (cs : List Char) : Take cs String :=
  let ds := cs.take n
  if ds.length != n || !ds.all isHexDigit then stopAt .invalidHex cs
  else
    let v := digitsValue 16 ds
    if isScalar v then .ok ⟨(Char.ofNat v).toString, cs.drop n, List.drop_suffix _ _⟩
    else stopAt .notScalar (cs.drop n)

/-- Reads an escape, from the character after its backslash. In a multi-line
string a backslash at the end of a line swallows the line break and the blanks
and line breaks after it. -/
def escape (multiline : Bool) : (cs : List Char) → Take cs String
  | [] => stopAt .unescapedBackslash []
  | c :: r =>
    if multiline && isBlankOrNewline c then
      if c == '\n' then .ok ⟨"", r.dropWhile isBlankOrNewline,
        (List.dropWhile_suffix _).trans (List.suffix_cons _ _)⟩
      else
        match h : r.dropWhile isBlank with
        | [] => .ok ⟨"", [], List.nil_suffix⟩
        | d :: a =>
          if d == '\n' then
            .ok ⟨"", a.dropWhile isBlankOrNewline, by
              have hs := @List.dropWhile_suffix _ r isBlank
              rw [h] at hs
              exact (List.dropWhile_suffix _).trans
                ((List.suffix_cons _ _).trans (hs.trans (List.suffix_cons _ _)))⟩
          else stopAt .unescapedBackslash (d :: a)
    else if c == 'u' then (hexChar 4 r).map (·.widen (List.suffix_cons _ _))
    else if c == 'U' then (hexChar 8 r).map (·.widen (List.suffix_cons _ _))
    else match simpleEscape? c with
      | some e => .ok ⟨e.toString, r, List.suffix_cons _ _⟩
      | none => stopAt .unescapedBackslash r

/-- Reads the rest of a basic string after its opening quotes, through its
closing quotes; `acc` holds what was read so far. -/
def basicBody (multiline : Bool) (acc : String) : (cs : List Char) → Take cs String
  | [] => stopAt .unterminatedString []
  | c :: r =>
    if c == '"' then
      if !multiline then .ok ⟨acc, r, List.suffix_cons _ _⟩
      else match r with
        | '"' :: '"' :: r' => .ok ⟨acc, r', by
            exact (List.suffix_cons _ _).trans ((List.suffix_cons _ _).trans (List.suffix_cons _ _))⟩
        | r => (basicBody multiline (acc.push '"') r).map (·.widen (List.suffix_cons _ _))
    else if c == '\\' then
      match escape multiline r with
      | .error e => .error e
      | .ok t => (basicBody multiline (acc ++ t.value) t.rest).map
          (·.widen (t.suffix.trans (List.suffix_cons _ _)))
    else if (if multiline then illegalInLines c else illegalInLine c) then
      stopAt (.illegalCharacter c) (c :: r)
    else (basicBody multiline (acc.push c) r).map (·.widen (List.suffix_cons _ _))
termination_by cs => cs.length
decreasing_by
  all_goals first
    | (simp only [List.length_cons]; omega)
    | (have h := t.length_le; simp only [List.length_cons]; omega)

/-- Up to two quotes right after the closing ones of a multi-line string belong
to the string. -/
def extraQuotes (q : Char) (t : Taken cs String) : Taken cs String :=
  match h : t.rest with
  | a :: b :: r =>
    if a == q then
      if b == q then ⟨t.value.push q |>.push q, r, by
        have := t.suffix; rw [h] at this
        exact (List.suffix_cons _ _).trans ((List.suffix_cons _ _).trans this)⟩
      else ⟨t.value.push q, b :: r, by
        have := t.suffix; rw [h] at this
        exact (List.suffix_cons _ _).trans this⟩
    else t
  | [a] => if a == q then ⟨t.value.push q, [], List.nil_suffix⟩ else t
  | [] => t

/-- Drops the newline right after the opening quotes of a multi-line string. -/
def dropFirstNewline : (cs : List Char) → { r : List Char // r <:+ cs }
  | '\n' :: r => ⟨r, List.suffix_cons _ _⟩
  | cs => ⟨cs, List.suffix_refl cs⟩

/-- Reads a one-line literal string, after its opening apostrophe. -/
def literalString (cs : List Char) : Take cs String :=
  (skipUntil ['\''] illegalInLine true cs).map fun t =>
    ⟨String.ofList t.value, t.rest.drop 1, (List.drop_suffix _ _).trans t.suffix⟩

/-- Reads a multi-line literal string, after its opening apostrophes. -/
def multilineLiteral (cs : List Char) : Take cs String :=
  let s := dropFirstNewline cs
  (skipUntil ['\'', '\'', '\''] illegalInLines true s.1).map fun t =>
    extraQuotes '\''
      ⟨String.ofList t.value, t.rest.drop 3, (List.drop_suffix _ _).trans (t.suffix.trans s.2)⟩

/-- Reads a multi-line basic string, after its opening quotes. -/
def multilineBasic (cs : List Char) : Take cs String :=
  let s := dropFirstNewline cs
  (basicBody true "" s.1).map fun t => extraQuotes '"' (t.widen s.2)

/-! ## Numbers -/

/-- Digits after the first of a run `d(_?d)*`: how many characters they take. -/
def moreDigits (isDigit : Char → Bool) : List Char → Nat
  | c :: r =>
    if isDigit c then moreDigits isDigit r + 1
    else if c == '_' then
      match r with
      | d :: r' => if isDigit d then moreDigits isDigit r' + 2 else 0
      | [] => 0
    else 0
  | [] => 0

/-- How many characters a run of digits with single underscores between them
takes at the front, `0` if it does not start with a digit. -/
def digitRun (isDigit : Char → Bool) : List Char → Nat
  | c :: r => if isDigit c then moreDigits isDigit r + 1 else 0
  | [] => 0

/-- The base that a letter after `0` names. -/
def radix? : Char → Option (Nat × (Char → Bool))
  | 'x' => some (16, isHexDigit)
  | 'o' => some (8, fun c => '0' ≤ c && c ≤ '7')
  | 'b' => some (2, fun c => c == '0' || c == '1')
  | _ => none

/-- The parts of a decimal number's text: sign, integer digits, fraction digits
and exponent, underscores dropped. -/
structure DecimalText where
  negative : Bool
  whole : List Char
  fraction : List Char
  exponent : Int
  isFloat : Bool

/-- A decimal number at the front: its parts and how many characters it takes. -/
def decimalNumber (cs : List Char) : Option (DecimalText × Nat) :=
  let signLen := match cs with
    | '+' :: _ | '-' :: _ => 1
    | _ => 0
  let body := cs.drop signLen
  let wholeLen := match body with
    | '0' :: _ => 1
    | _ => digitRun Char.isDigit body
  let afterWhole := body.drop wholeLen
  let fracLen := match afterWhole with
    | '.' :: r => if digitRun Char.isDigit r > 0 then digitRun Char.isDigit r + 1 else 0
    | _ => 0
  let afterFrac := afterWhole.drop fracLen
  let expSignLen := match afterFrac with
    | _ :: '+' :: _ | _ :: '-' :: _ => 1
    | _ => 0
  let expDigits := digitRun Char.isDigit (afterFrac.drop (1 + expSignLen))
  let expLen := match afterFrac with
    | 'e' :: _ | 'E' :: _ => if expDigits > 0 then 1 + expSignLen + expDigits else 0
    | _ => 0
  if wholeLen = 0 then none
  else
    let clean (l : List Char) := l.filter (· != '_')
    let expText := clean ((afterFrac.drop (1 + expSignLen)).take expDigits)
    let expValue : Int := digitsValue 10 expText
    let negExp := match afterFrac with
      | _ :: '-' :: _ => true
      | _ => false
    some (⟨cs.head? == some '-', clean (body.take wholeLen),
      clean ((afterWhole.drop 1).take (fracLen - 1)),
      (if expLen = 0 then 0 else if negExp then -expValue else expValue),
      fracLen + expLen > 0⟩, signLen + wholeLen + fracLen + expLen)

/-- The binary64 value with a given sign and bit pattern of its magnitude. -/
def signedFloat (negative : Bool) (bits : UInt64) : Float :=
  Float.ofBits (if negative then bits ||| 0x8000000000000000 else bits)

/-- The value of a decimal number's text; an integer with more than
`maxDigits` digits is refused. -/
def DecimalText.value (d : DecimalText) : Except Problem Value :=
  if d.isFloat then
    let mantissa := digitsValue 10 (d.whole ++ d.fraction)
    let bits := (Decimal.Dec.mk mantissa (d.exponent - d.fraction.length)).nearestBits
    .ok (.float (signedFloat d.negative bits))
  else if maxDigits < d.whole.length then .error (.tooManyDigits d.whole.length)
  else
    let n : Int := digitsValue 10 d.whole
    .ok (.int (if d.negative then -n else n))

/-- `inf` and `nan`, with an optional sign. -/
def specialFloat? (cs : List Char) : Option (Float × Nat) :=
  let nanBits : UInt64 := 0x7FF8000000000000
  match cs with
  | 'i' :: 'n' :: 'f' :: _ => some (signedFloat false Decimal.infinityBits, 3)
  | 'n' :: 'a' :: 'n' :: _ => some (signedFloat false nanBits, 3)
  | s :: 'i' :: 'n' :: 'f' :: _ =>
    if s == '+' || s == '-' then some (signedFloat (s == '-') Decimal.infinityBits, 4) else none
  | s :: 'n' :: 'a' :: 'n' :: _ =>
    if s == '+' || s == '-' then some (signedFloat (s == '-') nanBits, 4) else none
  | _ => none

/-- A number at the front: its value, or why it cannot be taken, and how many
characters it takes. -/
def number? (cs : List Char) : Option (Except Problem Value × Nat) :=
  let prefixed := match cs with
    | '0' :: b :: r =>
      match radix? b with
      | some (base, isDigit) =>
        let n := digitRun isDigit r
        if n > 0 then
          some (.ok (Value.int (digitsValue base ((r.take n).filter (· != '_')))), n + 2)
        else none
      | none => none
    | _ => none
  match prefixed with
  | some v => some v
  | none =>
    match decimalNumber cs with
    | some (d, n) => some (d.value, n)
    | none => (specialFloat? cs).map fun (f, n) => (.ok (.float f), n)

/-! ## Dates and times -/

/-- Two digits at the front, the first at most `hi0`, and the second at most
`hi1` when the first is `hi0`. -/
def twoDigits (hi0 hi1 : Char) : List Char → Option Nat
  | a :: b :: _ =>
    if a.isDigit && b.isDigit && a ≤ hi0 && (a < hi0 || b ≤ hi1) then
      some (digitValue a * 10 + digitValue b)
    else none
  | _ => none

/-- `HH:MM:SS`, with an optional fraction: the time and how many characters it takes. -/
def time? (cs : List Char) : Option (Time × Nat) := do
  let h ← twoDigits '2' '3' cs
  guard (cs[2]? == some ':')
  let m ← twoDigits '5' '9' (cs.drop 3)
  guard (cs[5]? == some ':')
  let s ← twoDigits '5' '9' (cs.drop 6)
  let frac := match cs.drop 8 with
    | '.' :: r => r.takeWhile Char.isDigit
    | _ => []
  let micro := digitsValue 10 ((frac.take 6) ++ List.replicate (6 - frac.length) '0')
  pure (⟨h, m, s, micro⟩, 8 + (if frac.isEmpty then 0 else frac.length + 1))

/-- `Z`, `z` or `±HH:MM`: the offset in minutes and how many characters it takes. -/
def offset? : List Char → Option (Int × Nat)
  | 'Z' :: _ | 'z' :: _ => some (0, 1)
  | s :: r =>
    if s == '+' || s == '-' then do
      let h ← twoDigits '2' '3' r
      guard (r[2]? == some ':')
      let m ← twoDigits '5' '9' (r.drop 3)
      let total : Int := h * 60 + m
      pure (if s == '-' then -total else total, 6)
    else none
  | [] => none

/-- What a date at the front reads as: a date, or a date and a time. -/
inductive Dated where
  | date (d : Date)
  | dateTime (d : DateTime)

/-- A date at the front, as the pattern allows it (not yet checked to exist),
and how many characters it takes. -/
def dated? (cs : List Char) : Option (Dated × Nat) := do
  let year := cs.take 4
  guard (year.length == 4 && year.all Char.isDigit && cs[4]? == some '-')
  let month ← twoDigits '1' '2' (cs.drop 5)
  guard (month ≥ 1 && cs[7]? == some '-')
  let day ← twoDigits '3' '1' (cs.drop 8)
  guard (day ≥ 1)
  let date : Date := ⟨digitsValue 10 year, month, day⟩
  let timed := match cs.drop 10 with
    | t :: r =>
      if t == 'T' || t == 't' || t == ' ' then
        (time? r).map fun (tm, n) =>
          match offset? (r.drop n) with
          | some (o, k) => (Dated.dateTime ⟨date, tm, some o⟩, 11 + n + k)
          | none => (Dated.dateTime ⟨date, tm, none⟩, 11 + n)
      else none
    | [] => none
  pure (timed.getD (.date date, 10))

/-- Whether a year is a leap year of the Gregorian calendar. -/
def isLeapYear (y : Nat) : Bool := y % 4 == 0 && (y % 100 != 0 || y % 400 == 0)

/-- The number of days in a month of a year. -/
def daysIn (y m : Nat) : Nat :=
  match m with
  | 2 => if isLeapYear y then 29 else 28
  | 4 | 6 | 9 | 11 => 30
  | _ => 31

/-- Whether a date exists: years run from 1 to 9999. -/
def Date.exists (d : Date) : Bool :=
  1 ≤ d.year && 1 ≤ d.month && d.month ≤ 12 && 1 ≤ d.day && d.day ≤ daysIn d.year d.month

/-- The calendar date of what a date reads as. -/
def Dated.calendarDate : Dated → Date
  | .date d => d
  | .dateTime d => d.date

def Dated.value : Dated → Value
  | .date d => .date d
  | .dateTime d => .dateTime d

end EggFront.Toml
