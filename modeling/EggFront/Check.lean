import EggFront.Syntax.Parse
import EggFront.Binding.Resolve
import EggFront.Syntax.Print

/-!
# Checking a source text

`check` runs the whole front end on one source text and gathers what a user is
told, in order:

* when scanning or parsing rejects the text, the scanner's warnings that the
  rejection does not carry, then the rejection's diagnostics;
* otherwise the scanner's warnings, then the resolution's diagnostics.

A check fails when a diagnostic is an error, or, with warnings counted as
errors, when there is any diagnostic at all.
-/

namespace EggFront

/-- What checking a source text finds: the resolved program, when the text was
read, and every diagnostic in the order a user is told them. -/
structure Checked where
  resolved : Option Resolved
  diagnostics : List Diagnostic

/-- Checks the source text of `file`. Only a fault of resolution itself stops it. -/
def check (file text : String) : Except Fault Checked :=
  match Program.ofSource file text with
  | (s, .error r) =>
    .ok ⟨none, s.diagnostics.filter (fun d => !r.diagnostics.contains d) ++ r.diagnostics⟩
  | (s, .ok p) =>
    match p.resolve with
    | .ok r => .ok ⟨some r, s.diagnostics ++ r.diagnostics⟩
    | .error f => .error f

/-- The style that prints a resolved program: with each bound name followed by
its symbol's text when annotating. -/
def Resolved.style (r : Resolved) (annotate : Bool) (indent : Nat) : PrintStyle :=
  { indent, label := fun id => if annotate then (r.symbols[id.index]?).map Symbol.text else none }

/-- Whether printing a program indents any line: a struct always has a field,
and a function's body indents its declarations and statements. -/
def Program.usesIndent (p : Program) : Bool :=
  p.decls.any fun
    | .struct _ => true
    | .fn f => !(f.decls.isEmpty && f.body.isEmpty)
    | .var _ => false

/-- Why an indentation width cannot lay out an indented line. -/
inductive IndentError where
  /-- The width does not fit a signed 64-bit length. -/
  | overflow
  /-- The width is too large to lay out in memory. -/
  | tooLarge
deriving DecidableEq, Repr

/-- What an indentation error says. -/
def IndentError.message : IndentError → String
  | .overflow => "cannot fit 'int' into an index-sized integer"
  | .tooLarge => ""

/-- The spaces per level that a width gives an indented line: none for a
negative width; refused outside the signed 64-bit range, and from `2 ^ 40` on,
where the line cannot be held in memory. -/
def indentWidth (n : Int) : Except IndentError Nat :=
  if n < -(Int.pow 2 63) || Int.pow 2 63 ≤ n then .error .overflow
  else if Int.pow 2 40 ≤ n then .error .tooLarge
  else .ok n.toNat

/-- The spaces per level that printing a program with a width uses: the width
is only checked when a line is indented. -/
def Program.indentFor (p : Program) (n : Int) : Except IndentError Nat :=
  if p.usesIndent then indentWidth n else .ok n.toNat

/-- Whether the check fails. -/
def Checked.failed (c : Checked) (warningsAsErrors : Bool) : Bool :=
  if warningsAsErrors then !c.diagnostics.isEmpty else c.diagnostics.any Diagnostic.isError

end EggFront
