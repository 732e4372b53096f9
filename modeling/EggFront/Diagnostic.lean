import EggFront.Source.Span

/-!
# Diagnostics

A diagnostic is what the front end reports about a source text: a severity, a
short code (`E100` for scanning, `E200` for syntax, `E301` to `E306` for names,
`W100` for a clamped integer), a message and the labelled spans it points at.

Scanning and parsing stop with a *rejection* when they found errors; it carries
every diagnostic of the stage and summarises them in one headline.
-/

namespace EggFront

/-- How bad a finding is. -/
inductive Severity where
  | error
  | warning
deriving DecidableEq, Repr, Inhabited

/-- The word a report uses for a severity. -/
def Severity.word : Severity → String
  | .error => "error"
  | .warning => "warning"

/-- A span a diagnostic points at, with an optional note for it. -/
structure Label where
  span : Span
  message : String := ""
deriving DecidableEq, Repr, Inhabited

/-- One finding about a source text. -/
structure Diagnostic where
  severity : Severity
  code : String
  message : String
  labels : List Label
deriving DecidableEq, Repr, Inhabited

namespace Diagnostic

/-- A diagnostic with one unlabelled span. -/
def atSpan (severity : Severity) (code message : String) (span : Span) : Diagnostic :=
  ⟨severity, code, message, [{ span }]⟩

/-- The line of the first label's start, or 0 when there is no label. -/
def line (d : Diagnostic) : Int :=
  match d.labels with
  | l :: _ => l.span.startLine
  | [] => 0

/-- The column of the first label's start, or 0 when there is no label. -/
def col (d : Diagnostic) : Int :=
  match d.labels with
  | l :: _ => l.span.startCol
  | [] => 0

/-- The one-line form: `error at line 3, col 7: message`. -/
def summary (d : Diagnostic) : String :=
  d.severity.word ++ " at line " ++ toString d.line ++ ", col " ++ toString d.col ++ ": " ++
    d.message

/-- Whether the finding is an error. -/
def isError (d : Diagnostic) : Bool := d.severity == .error

end Diagnostic

/-- A stage that stopped: every diagnostic it collected, errors and warnings. -/
structure Rejection where
  diagnostics : List Diagnostic
deriving DecidableEq, Repr, Inhabited

/-- `N error(s): m1; m2`, counting every diagnostic of the rejection. -/
def Rejection.headline (r : Rejection) : String :=
  toString r.diagnostics.length ++ " error(s): " ++
    "; ".intercalate (r.diagnostics.map Diagnostic.message)

end EggFront
