import EggFront.Check
import EggFront.Syntax.Names
import EggFront.Syntax.Print

/-!
# Editor features

What an editor asks of an open egg document: its diagnostics, the text shown on
hovering a name, an outline of its top-level declarations, and edits that format
it.

Editors count lines and characters from 0, so a span's first line and column
each lose one; the end character is the span's last column, which is just past
the last character in 0-based counting.

* Diagnostics are the scanner's, then the parser's or the resolution's, each
  message prefixed with its code: `[E301] multiply declared identifier`. When a
  stage rejects the text, the scanner's reports that the rejection carries are
  shown once: the editor tells them by where they were made, where checking
  compares what they say.
* Hovering at a place shows the first name, in source order, whose span lies on
  that line and covers that character (from one before its first column to its
  last), if the name is bound: `**variable** \`x\` : \`int\``.
* The outline lists functions (with their parameters and result), structs (with
  their fields) and variables (with their type).
* Formatting replaces the whole document by its printed form, without labels,
  unless the two are already equal.
-/

namespace EggFront

/-- A 0-based place in a document. -/
structure Place where
  line : Int
  character : Int
deriving DecidableEq, Repr, Inhabited

/-- A stretch of a document, from `start` to `stop`. -/
structure Range where
  start : Place
  stop : Place
deriving DecidableEq, Repr, Inhabited

/-- The 0-based range of a span: its first line and column less one, and its end
column as the end character. -/
def Span.toRange (s : Span) : Range :=
  ⟨⟨s.startLine - 1, s.startCol - 1⟩, ⟨s.endLine - 1, s.endCol⟩⟩

/-- A diagnostic as an editor shows it. -/
structure Notice where
  range : Range
  /-- 1 for an error, 2 for a warning. -/
  severity : Nat
  code : Option String
  message : String

/-- A diagnostic as an editor shows it: its first label's range, or the origin. -/
def Diagnostic.toNotice (d : Diagnostic) : Notice :=
  let range := match d.labels with
    | l :: _ => l.span.toRange
    | [] => ⟨⟨0, 0⟩, ⟨0, 0⟩⟩
  ⟨range, (match d.severity with | .error => 1 | .warning => 2), some d.code,
    "[" ++ d.code ++ "] " ++ d.message⟩

/-- What a fault of resolution shows in an editor. -/
def Fault.toNotice (f : Fault) : Notice :=
  ⟨⟨⟨0, 0⟩, ⟨0, 0⟩⟩, 1, none, "[internal] analyzer error: " ++ f.message⟩

/-- Kinds of outline entries. -/
inductive OutlineKind where
  | function
  | struct
  | variable

/-- The number editors use for an outline kind. -/
def OutlineKind.code : OutlineKind → Nat
  | .function => 12
  | .struct => 23
  | .variable => 13

/-- An entry of a document's outline. -/
inductive Outline where
  | mk (name : String) (kind : OutlineKind) (range selection : Range) (detail : Option String)
      (children : List Outline)

/-- An edit: replace a range by a text. -/
structure TextEdit where
  range : Range
  newText : String

/-- Where a diagnostic was made: as the `i`-th report of the scanner, or of the
parser. An editor tells reports apart by where they were made, not by what they
say. -/
inductive Origin where
  | scanner (i : Nat)
  | parser (i : Nat)
deriving DecidableEq

/-- A diagnostic, and where it was made. -/
structure Report where
  origin : Origin
  diagnostic : Diagnostic

/-- The diagnostics of one stage as its reports, numbered in order. -/
def Report.ofStage (stage : Nat → Origin) (ds : List Diagnostic) : List Report :=
  ds.mapIdx fun i d => ⟨stage i, d⟩

/-- Reads a source text as an editor does, keeping track of which report is
which: the scanner's reports, then the program or the reports of the stage that
rejected it. The scanner rejects with its own reports, the parser with reports
it made itself. -/
def readReports (file text : String) : List Report × Except (List Report) Program :=
  let s := scan file text
  let scanned := Report.ofStage .scanner s.diagnostics
  (scanned,
    if s.hasError then .error scanned
    else (Program.parse s.tokens s.eof).mapError fun errs =>
      Report.ofStage .parser (errs.map SyntaxError.toDiagnostic))

/-- What the editor knows of a document once it is analysed. -/
structure Document where
  source : String
  /-- The program, if the text could be read. -/
  program : Option Program
  symbols : Array Symbol
  notices : List Notice

namespace Document

/-- Analyses the text of the document at `uri`. A rejected text shows the
scanner's reports that the rejection does not carry, then the rejection's. -/
def analyze (uri source : String) : Document :=
  match readReports uri source with
  | (scanned, .error rejected) =>
    -- a report is left out when it is one the rejection carries, not when it says the same
    let kept := scanned.filter fun r => !(rejected.map Report.origin).contains r.origin
    ⟨source, none, #[], (kept ++ rejected).map (·.diagnostic.toNotice)⟩
  | (scanned, .ok p) =>
    let notices := scanned.map (·.diagnostic.toNotice)
    match p.resolve with
    | .ok r => ⟨source, some r.program, r.symbols, notices ++ r.diagnostics.map Diagnostic.toNotice⟩
    | .error f => ⟨source, some p, #[], notices ++ [f.toNotice]⟩

/-- The names of the document's program, in source order. -/
def names (d : Document) : List Ident := (d.program.map Program.names).getD []

/-- Whether a 0-based place falls on a one-line span: on its line, from one
before its first column to its last column. -/
def Span.covers (s : Span) (line character : Int) : Bool :=
  s.startLine == s.endLine && s.startLine - 1 == line && s.startCol - 1 ≤ character &&
    character ≤ s.endCol

/-- `struct definition` for `STRUCT_DEFINITION`: a kind in words. -/
def kindWords (s : Symbol) : String :=
  String.map (fun c => if c = '_' then ' ' else c.toLower) s.kindName

/-- What hovering shows of a name: the kind of its symbol, the name and the
symbol, if the name is bound. -/
def describe (d : Document) (i : Ident) : Option String :=
  i.sym.bind (fun id => d.symbols[id.index]?) |>.map fun s =>
    "**" ++ kindWords s ++ "** `" ++ i.name ++ "` : `" ++ s.text ++ "`"

/-- The hover text at a 0-based place: that of the first bound name there. -/
def hover (d : Document) (line character : Int) : Option String :=
  d.names.findSome? fun i => if Span.covers i.span line character then d.describe i else none

def varOutline (v : VarDecl) : Outline :=
  .mk v.name.name .variable v.span.toRange v.name.span.toRange (some v.type.name) []

def declOutline : Decl → Outline
  | .var v => varOutline v
  | .fn f =>
    let params := ", ".intercalate (f.params.map fun p => p.type.name ++ " " ++ p.name.name)
    .mk f.name.name .function f.span.toRange f.name.span.toRange
      (some ("(" ++ params ++ ") -> " ++ f.result.name)) []
  | .struct s => .mk s.name.name .struct s.span.toRange s.name.span.toRange none
      (s.fields.map varOutline)

/-- The outline of the document's top-level declarations. -/
def outline (d : Document) : List Outline :=
  match d.program with
  | some p => p.decls.map declOutline
  | none => []

end Document

/-- The place just past the last character of a text. -/
def documentEnd (source : String) : Place :=
  let cs := source.toList
  let breaks := cs.count '\n'
  let lastLine := (cs.reverse.takeWhile (· != '\n')).length
  ⟨breaks, lastLine⟩

/-- The largest tab size a formatting request may carry: the greatest signed
32-bit integer. -/
def maxTabSize : Nat := 2147483647

/-- A formatting request whose tab size lies outside `0 … maxTabSize`. -/
structure BadTabSize where
  given : Int
deriving DecidableEq, Repr

/-- What a refused tab size says. -/
def BadTabSize.message (e : BadTabSize) : String :=
  "FormattingOptions.tab_size should be in range [0:" ++ toString maxTabSize ++ "], but was " ++
    toString e.given ++ "."

/-- The tab size of a formatting request, refused outside `0 … maxTabSize`. -/
def tabSize? (n : Int) : Except BadTabSize Nat :=
  if 0 ≤ n ∧ n ≤ maxTabSize then .ok n.toNat else .error ⟨n⟩

/-- The edits that format the document with `tabSize` spaces per level, if it
is read and not formatted already. -/
def Document.format (d : Document) (tabSize : Nat) : Option (List TextEdit) :=
  match d.program with
  | none => none
  | some p =>
    let text := p.print { indent := tabSize }
    if text == d.source then none
    else some [⟨⟨⟨0, 0⟩, documentEnd d.source⟩, text⟩]

end EggFront
