import EggFront.Diagnostic
import EggFront.Text.Lines

/-!
# Rendering reports

A report of a diagnostic is a header, then an excerpt per label:

```text
error[E301]: multiply declared identifier
  --> main.egg:1:12
      |
     1 | int x; int x;
      |            ^
```

The header names the severity, the code and the message. An excerpt gives the
label's location, then, when the file's text is known and has the label's first
line, that line and, for a label on one line, a row of carets under it; the
label's own message, if any, follows. The carets start at the label's first
column and run to its last one, cut at the end of the line, and are never fewer
than one. Lines are counted as `Text.lines` cuts them.

With colour, the header is in the severity's colour and bold, the frame in blue,
and carets and label messages in the severity's colour.
-/

namespace EggFront

/-- The ANSI codes of a coloured report. -/
structure Ink where
  error : String := "\x1b[1;31m"
  warning : String := "\x1b[1;33m"
  bold : String := "\x1b[1m"
  frame : String := "\x1b[1;34m"
  reset : String := "\x1b[0m"

/-- The texts that reports quote from: for each file name, its lines. A name
registered again replaces its earlier text. -/
structure SourceBook where
  files : List (String × List String) := []

namespace SourceBook

/-- The book with `text` registered under `file`. -/
def register (b : SourceBook) (file text : String) : SourceBook :=
  ⟨(file, Text.lines text) :: b.files.filter (·.1 != file)⟩

/-- Line `n` (from 1) of the text registered under `file`, if there is one. -/
def line? (b : SourceBook) (file : String) (n : Int) : Option String :=
  match b.files.find? (·.1 == file) with
  | some (_, ls) => if 1 ≤ n then ls[(n - 1).toNat]? else none
  | none => none

end SourceBook

/-- How reports are rendered: with or without colour. -/
structure Renderer where
  color : Bool
  sources : SourceBook := {}
  ink : Ink := {}

namespace Renderer

variable (r : Renderer)

def paint (code text : String) : String :=
  if r.color then code ++ text ++ r.ink.reset else text

def severityInk : Severity → String
  | .error => r.ink.error
  | .warning => r.ink.warning

/-- `n` spaces; none for a negative `n`. -/
def spaces (n : Int) : String := String.ofList (List.replicate n.toNat ' ')

/-- `n` right-aligned in four columns. -/
def gutterNumber (n : Int) : String :=
  let s := toString n
  spaces (4 - s.length) ++ s

/-- The rows of one label's excerpt. -/
def excerpt (sev : Severity) (l : Label) : List String :=
  let gutter := r.paint r.ink.frame "    |"
  let head := ["  " ++ r.paint r.ink.frame "-->" ++ " " ++ l.span.location, "  " ++ gutter]
  let quoted :=
    match r.sources.line? l.span.file l.span.startLine with
    | none => []
    | some text =>
      let lineRow := "  " ++ r.paint r.ink.frame (gutterNumber l.span.startLine ++ " |") ++ " " ++ text
      if l.span.startLine == l.span.endLine then
        let width := max 1 (min l.span.endCol text.length - l.span.startCol + 1)
        let carets := String.ofList (List.replicate width.toNat '^')
        [lineRow, "  " ++ gutter ++ " " ++ spaces (l.span.startCol - 1) ++
          r.paint (r.severityInk sev) carets]
      else [lineRow]
  let note := if l.message.isEmpty then [] else
    ["  " ++ gutter ++ "   " ++ r.paint (r.severityInk sev) l.message]
  head ++ quoted ++ note

/-- The report of a diagnostic: the header and one excerpt per label. -/
def render (d : Diagnostic) : String :=
  let header := r.paint (r.severityInk d.severity) (d.severity.word ++ "[" ++ d.code ++ "]") ++
    r.paint r.ink.bold (": " ++ d.message)
  "\n".intercalate (header :: d.labels.flatMap (r.excerpt d.severity))

end Renderer

end EggFront
