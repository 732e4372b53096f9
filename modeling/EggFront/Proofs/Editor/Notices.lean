import Mathlib
import EggFront.Editor
import EggFront.Proofs.Binding.Faultless
import EggFront.Proofs.Parse.CompleteProgram

/-!
# The editor shows what checking reports

Checking a text (`check`) and analysing it as an editor's document
(`Document.analyze`) run the same stages and gather the same diagnostics, in
the same order (`Document.analyze_notices`). What a text gives, stage by stage,
is said by `Findings`: every diagnostic of a scan that rejects the text; else
the scanner's warnings, then the parser's errors when parsing rejects it, or
the diagnostics of resolving the program.

The two gather them in different ways when a stage rejects the text. Checking
leaves out each scanner diagnostic *equal* to one the rejection carries; the
editor leaves out each scanner report that *is* one the rejection carries. They
agree because a scan that rejects a text is rejected with its own reports, so
both leave all of them out; and a scan that does not holds warnings only, none
equal to an error of the parser and none made by it, so both keep all of them.
-/

namespace EggFront

/-! ## Reports -/

namespace Report

variable {stage : Nat → Origin} {ds : List Diagnostic}

@[simp] theorem diagnostics_ofStage (stage : Nat → Origin) (ds : List Diagnostic) :
    (ofStage stage ds).map Report.diagnostic = ds := by
  apply List.ext_getElem?
  intro i
  simp [ofStage, Function.comp_def]

/-- The notices of a stage's reports are those of its diagnostics. -/
@[simp] theorem notices_ofStage (stage : Nat → Origin) (ds : List Diagnostic) :
    (ofStage stage ds).map (fun r => r.diagnostic.toNotice) = ds.map Diagnostic.toNotice :=
  calc (ofStage stage ds).map (fun r => r.diagnostic.toNotice)
      _ = ((ofStage stage ds).map Report.diagnostic).map Diagnostic.toNotice := by rw [List.map_map]; rfl
      _ = ds.map Diagnostic.toNotice := by rw [diagnostics_ofStage]

/-- A report of a stage was made by that stage. -/
theorem origin_of_mem_ofStage {r : Report} (h : r ∈ ofStage stage ds) : ∃ i, r.origin = stage i := by
  simp only [ofStage, List.mem_mapIdx] at h
  obtain ⟨i, -, rfl⟩ := h
  exact ⟨i, rfl⟩

/-- Leaving out the reports of a list that a list carries leaves nothing. -/
theorem filter_carried_self (rs : List Report) :
    rs.filter (fun r => !(rs.map origin).contains r.origin) = [] := by
  rw [List.filter_eq_nil_iff]
  intro r hr
  simpa using List.mem_map_of_mem (f := origin) hr

/-- No report of the scanner is one the parser made. -/
theorem filter_scanner_reports (ds es : List Diagnostic) :
    (ofStage .scanner ds).filter (fun r => !((ofStage .parser es).map origin).contains r.origin) =
      ofStage .scanner ds := by
  rw [List.filter_eq_self]
  intro r hr
  obtain ⟨i, hi⟩ := origin_of_mem_ofStage hr
  rw [Bool.not_eq_eq_eq_not, Bool.not_true]
  refine Bool.eq_false_iff.2 fun hc => ?_
  obtain ⟨r', hr', heq⟩ := List.mem_map.1 (List.contains_iff_mem.1 hc)
  obtain ⟨j, hj⟩ := origin_of_mem_ofStage hr'
  rw [hi, hj] at heq
  cases heq

end Report

/-! ## Diagnostics that are equal -/

/-- Leaving out the diagnostics of a list equal to one it holds leaves nothing. -/
theorem filter_equal_self (ds : List Diagnostic) : ds.filter (fun d => !ds.contains d) = [] := by
  rw [List.filter_eq_nil_iff]
  intro d hd
  simpa using hd

/-- A scan that found no error holds warnings only. -/
theorem Scan.warning_of_hasError {s : Scan} (hs : s.hasError = false) :
    ∀ d ∈ s.diagnostics, d.severity = .warning := by
  intro d hd
  have hne : d.isError = false := by
    simp only [Scan.hasError, List.any_eq_false] at hs
    simpa using hs d hd
  cases h : d.severity with
  | error => simp [Diagnostic.isError, h] at hne
  | warning => rfl

@[simp] theorem SyntaxError.severity_toDiagnostic (e : SyntaxError) : e.toDiagnostic.severity = .error :=
  rfl

/-- No warning is equal to an error of the parser, so none is left out. -/
theorem filter_warnings_syntaxErrors {ws : List Diagnostic} (hw : ∀ d ∈ ws, d.severity = .warning)
    (errs : List SyntaxError) :
    ws.filter (fun d => !(errs.map SyntaxError.toDiagnostic).contains d) = ws := by
  rw [List.filter_eq_self]
  intro d hd
  rw [Bool.not_eq_eq_eq_not, Bool.not_true]
  refine Bool.eq_false_iff.2 fun hc => ?_
  obtain ⟨e, -, he⟩ := List.mem_map.1 (List.contains_iff_mem.1 hc)
  have := SyntaxError.severity_toDiagnostic e
  rw [he, hw d hd] at this
  cases this

/-! ## The stages -/

/-- The diagnostics `ds` are what the text of `file` gives, stage by stage. -/
inductive Findings (file text : String) : List Diagnostic → Prop
  /-- A scan that found an error rejects the text with all its diagnostics. -/
  | scanning : (scan file text).hasError = true → Findings file text (scan file text).diagnostics
  /-- The scanner's warnings, then the errors of parsing, which rejects the text. -/
  | parsing {errs : List SyntaxError} : (scan file text).hasError = false →
      Program.parse (scan file text).tokens (scan file text).eof = .error errs →
      Findings file text ((scan file text).diagnostics ++ errs.map SyntaxError.toDiagnostic)
  /-- The scanner's warnings, then the diagnostics of resolving the program read. -/
  | resolving {p : Program} {r : Resolved} : (scan file text).hasError = false →
      Program.parse (scan file text).tokens (scan file text).eof = .ok p → p.resolve = .ok r →
      Findings file text ((scan file text).diagnostics ++ r.diagnostics)

section Stages

variable {file text : String}

theorem check_of_scan_rejects (hs : (scan file text).hasError = true) :
    check file text = .ok ⟨none, (scan file text).diagnostics⟩ := by
  simp only [check, Program.ofSource, Scan.accept, hs, if_true, filter_equal_self, List.nil_append]

theorem analyze_of_scan_rejects (hs : (scan file text).hasError = true) :
    (Document.analyze file text).notices = (scan file text).diagnostics.map Diagnostic.toNotice := by
  simp only [Document.analyze, readReports, hs, if_true, Report.filter_carried_self, List.nil_append,
    Report.notices_ofStage]

theorem check_of_parse_rejects {errs : List SyntaxError} (hs : (scan file text).hasError = false)
    (hp : Program.parse (scan file text).tokens (scan file text).eof = .error errs) :
    check file text =
      .ok ⟨none, (scan file text).diagnostics ++ errs.map SyntaxError.toDiagnostic⟩ := by
  simp only [check, Program.ofSource, Scan.accept, hs, hp, Bool.false_eq_true, if_false, Except.mapError]
  rw [filter_warnings_syntaxErrors (Scan.warning_of_hasError hs)]

theorem analyze_of_parse_rejects {errs : List SyntaxError} (hs : (scan file text).hasError = false)
    (hp : Program.parse (scan file text).tokens (scan file text).eof = .error errs) :
    (Document.analyze file text).notices =
      ((scan file text).diagnostics ++ errs.map SyntaxError.toDiagnostic).map Diagnostic.toNotice := by
  simp only [Document.analyze, readReports, hs, hp, Bool.false_eq_true, if_false, Except.mapError,
    Report.filter_scanner_reports, List.map_append, Report.notices_ofStage]

theorem check_of_resolves {p : Program} {r : Resolved} (hs : (scan file text).hasError = false)
    (hp : Program.parse (scan file text).tokens (scan file text).eof = .ok p) (hr : p.resolve = .ok r) :
    check file text = .ok ⟨some r, (scan file text).diagnostics ++ r.diagnostics⟩ := by
  simp only [check, Program.ofSource, Scan.accept, hs, hp, hr, Bool.false_eq_true, if_false,
    Except.mapError]

theorem analyze_of_resolves {p : Program} {r : Resolved} (hs : (scan file text).hasError = false)
    (hp : Program.parse (scan file text).tokens (scan file text).eof = .ok p) (hr : p.resolve = .ok r) :
    (Document.analyze file text).notices =
      ((scan file text).diagnostics ++ r.diagnostics).map Diagnostic.toNotice := by
  simp only [Document.analyze, readReports, hs, hp, hr, Bool.false_eq_true, if_false, Except.mapError,
    Report.notices_ofStage, List.map_append]

end Stages

/-- **The editor shows what checking reports.** For every source text and file
name, checking ends without a fault, its diagnostics are the text's findings
stage by stage, and the editor shows exactly these, one notice each and in the
same order: all the scanner's diagnostics once when scanning rejects the text,
else the scanner's warnings followed by the parser's errors or by the
resolution's diagnostics. -/
theorem Document.analyze_notices (file text : String) :
    ∃ c, check file text = .ok c ∧ Findings file text c.diagnostics ∧
      (Document.analyze file text).notices = c.diagnostics.map Diagnostic.toNotice := by
  cases hs : (scan file text).hasError with
  | true =>
    exact ⟨_, check_of_scan_rejects hs, .scanning hs, analyze_of_scan_rejects hs⟩
  | false =>
    cases hp : Program.parse (scan file text).tokens (scan file text).eof with
    | error errs =>
      exact ⟨_, check_of_parse_rejects hs hp, .parsing hs hp, analyze_of_parse_rejects hs hp⟩
    | ok p =>
      -- a program the parser returns resolves without a fault
      obtain ⟨r, hr, -⟩ := Program.resolve_spec (Program.parse_fresh (scanFrom_eof_kind _ _ _) hp)
      exact ⟨_, check_of_resolves hs hp hr, .resolving hs hp hr, analyze_of_resolves hs hp hr⟩

end EggFront
