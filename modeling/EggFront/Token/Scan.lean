import EggFront.Diagnostic
import EggFront.Token

/-!
# Scanning

`scan` splits a source text into tokens. It reads the text as a list of code
points and, at each place, takes one *piece*: a blank, a comment, a string
literal, a run of digits, a word, or an operator. A piece may give a token, an
issue, or both (a clamped integer gives its token and a warning).

## Rules

* Blanks are space, tab, carriage return and line feed; comments run from `#` or
  `//` up to the next line feed.
* A string literal keeps its quotes and escapes. It ends at a closing quote; a
  line feed or the end of the text leaves it unterminated. The escapes are
  `\n \t \' \" \? \\`; any other escaped character, or a backslash right before a
  line feed or the end, makes the literal bad. A bad or unterminated literal
  gives an issue at its opening quote and no token.
* An integer literal is a run of ASCII digits; its lexeme is the number without
  leading zeros, clamped to `2147483647` with a warning. A run of more than ten
  significant digits is clamped without its number being computed.
* A word is an ASCII letter or `_` followed by letters, digits and `_`; a
  reserved word gives its keyword.
* Two-character operators win over one-character ones; any other character is
  skipped with an issue.

## Termination

No fuel: every piece consumes at least one character, so `scanFrom` recurses on
a shorter text (`termination_by` the length).
-/

namespace EggFront

/-- A problem found while scanning, reported at the first character of its piece. -/
inductive ScanIssue where
  /-- A character that starts no token. -/
  | illegalChar (c : Char)
  /-- A string literal cut off by a line feed or the end of the text. -/
  | unterminated (badEscape : Bool)
  /-- A closed string literal with an escape that egg does not know. -/
  | badEscape
  /-- An integer literal above `2147483647`. -/
  | tooLarge
deriving DecidableEq, Repr

namespace ScanIssue

/-- The message of an issue. -/
def message : ScanIssue → String
  | illegalChar c => "ignoring illegal character: " ++ c.toString
  | unterminated false => "unterminated string literal ignored"
  | unterminated true => "unterminated string literal with bad escaped character ignored"
  | badEscape => "string literal with bad escaped character ignored"
  | tooLarge => "integer literal too large; using max value"

/-- A clamped integer is a warning; every other issue is an error. -/
def severity : ScanIssue → Severity
  | tooLarge => .warning
  | _ => .error

/-- `W100` for a warning, `E100` for an error. -/
def code (i : ScanIssue) : String :=
  match i.severity with
  | .warning => "W100"
  | .error => "E100"

/-- The diagnostic of an issue found at `p` in `file`. -/
def toDiagnostic (i : ScanIssue) (file : String) (p : Position) : Diagnostic :=
  Diagnostic.atSpan i.severity i.code i.message (Span.point file p)

end ScanIssue

/-! ## Character classes -/

/-- The characters skipped between tokens. -/
def isBlank (c : Char) : Bool :=
  c = ' ' || c = '\t' || c = '\r' || c = '\n'

/-- An ASCII letter or underscore. -/
def isWordStart (c : Char) : Bool := c.isAlpha || c = '_'

/-- An ASCII letter, digit or underscore. -/
def isWordChar (c : Char) : Bool := c.isAlphanum || c = '_'

/-- The characters that may follow a backslash in a string literal. -/
def isEscapable (c : Char) : Bool :=
  c = 'n' || c = 't' || c = '\'' || c = '"' || c = '?' || c = '\\'

/-! ## Integer literals -/

/-- The largest value an integer literal may denote. -/
def intLimit : Nat := 2147483647

/-- The number that a run of ASCII digits denotes. -/
def digitsValue (ds : List Char) : Nat :=
  ds.foldl (fun n d => 10 * n + (d.toNat - '0'.toNat)) 0

/-- A run of digits without its leading zeros, or `0` for a run of zeros. -/
def significantDigits (ds : List Char) : List Char :=
  match ds.dropWhile (· = '0') with
  | [] => ['0']
  | sig => sig

/-- A run's significant digits are `0` when it holds zeros only, and otherwise
what follows its leading zeros. -/
theorem significantDigits_cases (ds : List Char) :
    (ds.dropWhile (· = '0') = [] ∧ significantDigits ds = ['0']) ∨
      (ds.dropWhile (· = '0') ≠ [] ∧ significantDigits ds = ds.dropWhile (· = '0')) := by
  unfold significantDigits
  cases ds.dropWhile (· = '0') with
  | nil => exact .inl ⟨rfl, rfl⟩
  | cons d sig => exact .inr ⟨List.cons_ne_nil d sig, rfl⟩

/-- The lexeme of a run of digits: its significant digits, unless their number is
above `intLimit`, which gives `intLimit` and `true` (clamped). More significant
digits than `intLimit` has count as too many without the number being computed. -/
def clampDigits (ds : List Char) : String × Bool :=
  let sig := significantDigits ds
  if (toString intLimit).length < sig.length || intLimit < digitsValue sig then
    (toString intLimit, true)
  else (String.ofList sig, false)

/-! ## String literals -/

/-- The part of a string literal after its opening quote: the characters that
belong to it, what follows, whether a closing quote ended it, and whether an
escape was bad. -/
structure StringBody where
  chars : List Char
  rest : List Char
  closed : Bool
  bad : Bool

/-- Reads a string literal's body up to and including its closing quote, or up to
(not including) a line feed or the end of the text. -/
def stringBody : List Char → StringBody
  | [] => ⟨[], [], false, false⟩
  | '\n' :: r => ⟨[], '\n' :: r, false, false⟩
  | '"' :: r => ⟨['"'], r, true, false⟩
  | ['\\'] => ⟨['\\'], [], false, true⟩
  | '\\' :: '\n' :: r => ⟨['\\'], '\n' :: r, false, true⟩
  | '\\' :: c :: r =>
    let b := stringBody r
    ⟨'\\' :: c :: b.chars, b.rest, b.closed, b.bad || !isEscapable c⟩
  | c :: r =>
    let b := stringBody r
    ⟨c :: b.chars, b.rest, b.closed, b.bad⟩

/-- The body and what follows it make up the text read. -/
theorem stringBody_chars_append (cs : List Char) :
    (stringBody cs).chars ++ (stringBody cs).rest = cs := by
  fun_induction stringBody cs <;> simp_all +zetaDelta

/-! ## Pieces -/

/-- What scanning takes from the front of a text `c :: r`: the characters it
consumes after `c`, the text after them, and the token and issue they give. -/
structure Piece where
  more : List Char
  rest : List Char
  token : Option (TokenKind × String)
  issue : Option ScanIssue

/-- The operator that starts with `c`, two characters before one, or the issue of
an illegal character. -/
def operatorPiece (c : Char) (r : List Char) : Piece :=
  let single : Piece :=
    match TokenKind.single? c with
    | some k => ⟨[], r, some (k, c.toString), none⟩
    | none => ⟨[], r, none, some (.illegalChar c)⟩
  match r with
  | d :: r' =>
    match TokenKind.pair? c d with
    | some k => ⟨[d], r', some (k, String.ofList [c, d]), none⟩
    | none => single
  | [] => single

/-- A string literal after its opening quote: a token when it is closed and its
escapes are good, an issue otherwise. -/
def stringPiece (b : StringBody) : Piece :=
  if b.closed && !b.bad then ⟨b.chars, b.rest, some (.stringLit, String.ofList ('"' :: b.chars)), none⟩
  else if b.closed then ⟨b.chars, b.rest, none, some .badEscape⟩
  else ⟨b.chars, b.rest, none, some (.unterminated b.bad)⟩

theorem stringPiece_more (b : StringBody) : (stringPiece b).more = b.chars := by
  unfold stringPiece; repeat' split
  all_goals rfl

theorem stringPiece_rest (b : StringBody) : (stringPiece b).rest = b.rest := by
  unfold stringPiece; repeat' split
  all_goals rfl

/-- The piece at the front of the text `c :: r`. -/
def piece (c : Char) (r : List Char) : Piece :=
  if isBlank c then ⟨[], r, none, none⟩
  else if c = '#' || (c = '/' && r.head? == some '/') then
    ⟨r.takeWhile (· != '\n'), r.dropWhile (· != '\n'), none, none⟩
  else if c = '"' then stringPiece (stringBody r)
  else if c.isDigit then
    let lexeme := clampDigits (c :: r.takeWhile Char.isDigit)
    ⟨r.takeWhile Char.isDigit, r.dropWhile Char.isDigit, some (.intLit, lexeme.1),
      if lexeme.2 then some .tooLarge else none⟩
  else if isWordStart c then
    let w := String.ofList (c :: r.takeWhile isWordChar)
    ⟨r.takeWhile isWordChar, r.dropWhile isWordChar,
      some ((TokenKind.keyword? w).getD .ident, w), none⟩
  else operatorPiece c r

/-- A piece consumes a first part of the text, and nothing else. -/
theorem piece_more_append (c : Char) (r : List Char) :
    (piece c r).more ++ (piece c r).rest = r := by
  have hs := stringBody_chars_append r
  unfold piece operatorPiece
  repeat' split
  all_goals simp_all [List.takeWhile_append_dropWhile, stringPiece_more, stringPiece_rest]

/-- Every piece consumes at least one character. -/
theorem length_piece_rest (c : Char) (r : List Char) :
    (piece c r).rest.length < (c :: r).length := by
  have h := congrArg List.length (piece_more_append c r)
  simp only [List.length_append] at h
  simp only [List.length_cons]
  omega

/-! ## Scanning a text -/

/-- The tokens of a text, the marker token at its end, and what was found on the way. -/
structure Scan where
  tokens : List Token
  eof : Token
  diagnostics : List Diagnostic

/-- Scans `cs`, which starts at `p` in `file`. -/
def scanFrom (file : String) (cs : List Char) (p : Position) : Scan :=
  match cs with
  | [] => ⟨[], ⟨.eof, "", Span.point file p⟩, []⟩
  | c :: r =>
    let pc := piece c r
    let q := p.skip (c :: pc.more)
    let s := scanFrom file pc.rest q
    let span : Span := ⟨file, p.line, p.col, q.line, (max p.col (q.col - 1) : Nat)⟩
    { tokens := (pc.token.map fun t => (⟨t.1, t.2, span⟩ : Token)).toList ++ s.tokens
      eof := s.eof
      diagnostics := (pc.issue.map fun i => i.toDiagnostic file p).toList ++ s.diagnostics }
termination_by cs.length
decreasing_by exact length_piece_rest c r

/-- Scans a whole source text of `file`. -/
def scan (file : String) (text : String) : Scan :=
  scanFrom file text.toList Position.first

namespace Scan

/-- The tokens followed by the end marker. -/
def withEof (s : Scan) : List Token := s.tokens ++ [s.eof]

/-- Whether scanning found an error (warnings do not count). -/
def hasError (s : Scan) : Bool := s.diagnostics.any Diagnostic.isError

/-- A scan with an error is rejected with all its diagnostics, warnings included. -/
def accept (s : Scan) : Except Rejection Scan :=
  if s.hasError then .error ⟨s.diagnostics⟩ else .ok s

end Scan

end EggFront
