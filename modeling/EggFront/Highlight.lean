import EggFront.Text.Word

/-!
# Highlighting

`highlight` colours egg source text for display. It cuts the text into runs,
each with a shade, by a table of rules tried in order at each place; the first
rule that matches takes its run. The text is read as written: it need not be
a program the front end accepts, and every character ends up in some run.

## Rules, outside a string literal

| run | shade |
|---|---|
| white space (Unicode) | text |
| `//` or `#` up to the end of the line | comment |
| `"`, which opens a string literal | string |
| ASCII digits | number |
| `if else while repeat return cin cout` as a whole word | keyword |
| `struct` as a whole word | declaration |
| `true false` as a whole word | constant |
| `int bool void` as a whole word | type name |
| a name followed, after white space, by `(` | function |
| a name (`[A-Za-z_][A-Za-z0-9_]*`) | name |
| `<< >> ++ -- == != <= >= && \|\|`, then `+ - * / ! < > = .` | operator |
| `( ) , ; { }` | punctuation |

A whole word has no word character (Unicode letters, numerals and `_`) just
before or just after it.

## Rules, inside a string literal

A known escape (`\n \t \' \" \? \\`) is an escape run; characters other than
quote, backslash and line feed form string runs, as does a backslash with any
other character but a line feed; a quote closes the literal as a string run and
a line feed closes it as a text run.

Any other character is an error run of its own.
-/

namespace EggFront

/-- The shade of a run. -/
inductive Shade where
  | text | comment | string | escape | number
  | keyword | declaration | constant | typeName
  | function | name | operator | punctuation | error
deriving DecidableEq, Repr

/-- The token type name of a shade, as display styles know it. -/
def Shade.tokenType : Shade → String
  | .text => "Token.Text"
  | .comment => "Token.Comment.Single"
  | .string => "Token.Literal.String"
  | .escape => "Token.Literal.String.Escape"
  | .number => "Token.Literal.Number.Integer"
  | .keyword => "Token.Keyword"
  | .declaration => "Token.Keyword.Declaration"
  | .constant => "Token.Keyword.Constant"
  | .typeName => "Token.Keyword.Type"
  | .function => "Token.Name.Function"
  | .name => "Token.Name"
  | .operator => "Token.Operator"
  | .punctuation => "Token.Punctuation"
  | .error => "Token.Error"

/-- Unicode white space. -/
def isSpace (c : Char) : Bool :=
  [0x9, 0xA, 0xB, 0xC, 0xD, 0x1C, 0x1D, 0x1E, 0x1F, 0x20, 0x85, 0xA0, 0x1680, 0x2000, 0x2001,
    0x2002, 0x2003, 0x2004, 0x2005, 0x2006, 0x2007, 0x2008, 0x2009, 0x200A, 0x2028, 0x2029,
    0x202F, 0x205F, 0x3000].contains c.toNat

/-- An ASCII letter, digit or underscore: the characters of a name. -/
def isNameChar (c : Char) : Bool := c.isAlphanum || c = '_'

/-- Where the highlighter is: in plain code, or inside a string literal. -/
inductive Mode where
  | code
  | literal
deriving DecidableEq, Repr

/-- A run taken at the front of a text `c :: r`: its shade, the characters it
takes after `c`, the text after it, and the mode after it. -/
structure Run where
  shade : Shade
  more : List Char
  rest : List Char
  mode : Mode

/-- The shade of a whole word at a word boundary, if it is a reserved word. -/
def wordShade? : String → Option Shade
  | "if" | "else" | "while" | "repeat" | "return" | "cin" | "cout" => some .keyword
  | "struct" => some .declaration
  | "true" | "false" => some .constant
  | "int" | "bool" | "void" => some .typeName
  | _ => none

/-- The shade of a two-character operator. -/
def isPairOperator : Char → Char → Bool
  | '<', '<' | '>', '>' | '+', '+' | '-', '-' | '=', '=' | '!', '=' | '<', '=' | '>', '='
  | '&', '&' | '|', '|' => true
  | _, _ => false

/-- The shade of a one-character run: an operator, a punctuation mark, or an error. -/
def singleShade (c : Char) : Shade :=
  if "+-*/!<>=.".contains c then .operator
  else if "(),;{}".contains c then .punctuation
  else .error

/-- The shade of the name `word`, followed by `rest`: a reserved word at word
boundaries, a function name before `(`, or a name. `boundary` says whether the
character before the name is not a word character. -/
def nameShade (boundary : Bool) (word : String) (rest : List Char) : Shade :=
  let endsWord := match rest with
    | d :: _ => !wordChar.contains d
    | [] => true
  match (if boundary && endsWord then wordShade? word else none) with
  | some s => s
  | none => if (rest.dropWhile isSpace).head? == some '(' then .function else .name

/-- The run of a name starting with `c`. -/
def nameRun (boundary : Bool) (c : Char) (r : List Char) : Run :=
  ⟨nameShade boundary (String.ofList (c :: r.takeWhile isNameChar)) (r.dropWhile isNameChar),
    r.takeWhile isNameChar, r.dropWhile isNameChar, .code⟩

/-- The run at `c :: r` in plain code; `boundary` says whether the character
before `c` is not a word character. -/
def codeRun (boundary : Bool) (c : Char) (r : List Char) : Run :=
  if isSpace c then ⟨.text, r.takeWhile isSpace, r.dropWhile isSpace, .code⟩
  else if c = '#' || (c = '/' && r.head? == some '/') then
    ⟨.comment, r.takeWhile (· != '\n'), r.dropWhile (· != '\n'), .code⟩
  else if c = '"' then ⟨.string, [], r, .literal⟩
  else if c.isDigit then ⟨.number, r.takeWhile Char.isDigit, r.dropWhile Char.isDigit, .code⟩
  else if c.isAlpha || c = '_' then nameRun boundary c r
  else
    match r with
    | d :: r' =>
      if isPairOperator c d then ⟨.operator, [d], r', .code⟩ else ⟨singleShade c, [], d :: r', .code⟩
    | [] => ⟨singleShade c, [], [], .code⟩

/-- Whether a character is plain inside a string literal. -/
def isPlainInLiteral (c : Char) : Bool := c != '"' && c != '\\' && c != '\n'

/-- The run at `c :: r` inside a string literal. -/
def literalRun (c : Char) (r : List Char) : Run :=
  match c, r with
  | '\\', d :: r' =>
    if "nt'\"?\\".contains d then ⟨.escape, [d], r', .literal⟩
    else if d != '\n' then ⟨.string, [d], r', .literal⟩
    else ⟨.error, [], d :: r', .literal⟩
  | '\\', [] => ⟨.error, [], [], .literal⟩
  | '"', r => ⟨.string, [], r, .code⟩
  | '\n', r => ⟨.text, [], r, .code⟩
  | _, r => ⟨.string, r.takeWhile isPlainInLiteral, r.dropWhile isPlainInLiteral, .literal⟩

/-- The run at the front of `c :: r` in a mode. -/
def nextRun (mode : Mode) (boundary : Bool) (c : Char) (r : List Char) : Run :=
  match mode with
  | .code => codeRun boundary c r
  | .literal => literalRun c r

theorem nextRun_more_append (mode : Mode) (boundary : Bool) (c : Char) (r : List Char) :
    (nextRun mode boundary c r).more ++ (nextRun mode boundary c r).rest = r := by
  unfold nextRun codeRun literalRun nameRun
  repeat' split
  all_goals simp_all [List.takeWhile_append_dropWhile]

/-- A run of the highlighted text: where it starts, its shade and its characters. -/
structure Lit where
  index : Nat
  shade : Shade
  text : String

/-- Highlights `cs`, which starts at `index` in mode `mode`; `boundary` says
whether the character before it is not a word character. -/
def highlightFrom (mode : Mode) (boundary : Bool) (index : Nat) (cs : List Char) : List Lit :=
  match cs with
  | [] => []
  | c :: r =>
    let run := nextRun mode boundary c r
    let taken := c :: run.more
    let last := (taken.getLast? ).getD c
    ⟨index, run.shade, String.ofList taken⟩ ::
      highlightFrom run.mode (!wordChar.contains last) (index + taken.length) run.rest
termination_by cs.length
decreasing_by
  have h := congrArg List.length (nextRun_more_append mode boundary c r)
  simp only [List.length_append] at h
  simp only [List.length_cons]
  omega

/-- The runs of a source text, in order. -/
def highlight (text : String) : List Lit :=
  highlightFrom .code true 0 text.toList

end EggFront
