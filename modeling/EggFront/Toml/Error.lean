import EggFront.Text.Quoted
import EggFront.Toml.Value

/-!
# Errors of a TOML document

A document that is not valid TOML is rejected with the first problem found and
where it was found. A key is shown as the tuple of its parts (`('a', 'b')`, or
`('a',)` for a single part), a character or a string as a quoted literal.

Places are kept as the number of characters left in the document at the
problem, so that every reader can report one without knowing where it started;
`DecodeError.message` turns that into a line and a column, or into
`end of document` when nothing was left.

One problem is not about the grammar: a decimal integer with more than
`maxDigits` digits is refused when it is read, and its message gives no place.
-/

namespace EggFront.Toml

/-- A dotted key, as the list of its parts. -/
abbrev Key := List String

/-- A key as a tuple of quoted parts. -/
def Key.text : Key → String
  | [k] => "(" ++ Text.quote k ++ ",)"
  | ks => "(" ++ ", ".intercalate (ks.map Text.quote) ++ ")"

/-- Why a document is not valid TOML. -/
inductive Problem where
  | invalidStatement
  | expectedLineEnd
  | declaredTwice (key : Key)
  | overwrite
  | unclosedTableHeader
  | immutable (key : Key)
  | unclosedArrayHeader
  | redefinedNamespace (key : Key)
  | expectedEquals
  | invalidKeyStart
  | unclosedArray
  | unclosedInlineTable
  | duplicateInlineKey (part : String)
  | unescapedBackslash
  | invalidHex
  | notScalar
  | unterminatedString
  | illegalCharacter (c : Char)
  | expected (text : String)
  | invalidCharacter (c : Char)
  | invalidDate
  | invalidValue
  /-- A decimal integer with this many digits, more than `maxDigits`. -/
  | tooManyDigits (count : Nat)
deriving Repr, DecidableEq

namespace Problem

/-- What a problem says. -/
def message : Problem → String
  | invalidStatement => "Invalid statement"
  | expectedLineEnd => "Expected newline or end of document after a statement"
  | declaredTwice k => "Cannot declare " ++ k.text ++ " twice"
  | overwrite => "Cannot overwrite a value"
  | unclosedTableHeader => "Expected ']' at the end of a table declaration"
  | immutable k => "Cannot mutate immutable namespace " ++ k.text
  | unclosedArrayHeader => "Expected ']]' at the end of an array declaration"
  | redefinedNamespace k => "Cannot redefine namespace " ++ k.text
  | expectedEquals => "Expected '=' after a key in a key/value pair"
  | invalidKeyStart => "Invalid initial character for a key part"
  | unclosedArray => "Unclosed array"
  | unclosedInlineTable => "Unclosed inline table"
  | duplicateInlineKey k => "Duplicate inline table key " ++ Text.quote k
  | unescapedBackslash => "Unescaped '\\' in a string"
  | invalidHex => "Invalid hex value"
  | notScalar => "Escaped character is not a Unicode scalar value"
  | unterminatedString => "Unterminated string"
  | illegalCharacter c => "Illegal character " ++ Text.quote c.toString
  | expected s => "Expected " ++ Text.quote s
  | invalidCharacter c => "Found invalid character " ++ Text.quote c.toString
  | invalidDate => "Invalid date or datetime"
  | invalidValue => "Invalid value"
  | tooManyDigits n => "Exceeds the limit (" ++ toString maxDigits ++
      " digits) for integer string conversion: value has " ++ toString n ++
      " digits; use sys.set_int_max_str_digits() to increase the limit"

/-- Whether a problem is one of the grammar, whose message says where it is. -/
def isMalformed : Problem → Bool
  | tooManyDigits _ => false
  | _ => true

end Problem

/-- A problem, and the number of characters left in the document where it was found. -/
structure DecodeError where
  problem : Problem
  left : Nat
deriving Repr, DecidableEq

/-- Where the character at offset `pos` of `doc` stands: `line L, column C`,
counting both from 1, or `end of document`. -/
def placeText (doc : List Char) (pos : Nat) : String :=
  if doc.length ≤ pos then "end of document"
  else
    let before := doc.take pos
    let line := before.count '\n' + 1
    let column := if line = 1 then pos + 1 else (before.reverse.takeWhile (· != '\n')).length + 1
    "line " ++ toString line ++ ", column " ++ toString column

/-- The message of an error found in the document `doc`. -/
def DecodeError.message (doc : List Char) (e : DecodeError) : String :=
  if e.problem.isMalformed then
    e.problem.message ++ " (at " ++ placeText doc (doc.length - e.left) ++ ")"
  else e.problem.message

end EggFront.Toml
