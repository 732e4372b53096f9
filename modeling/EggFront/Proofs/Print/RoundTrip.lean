import EggFront.Proofs.Print.Blocks
import EggFront.Proofs.Parse.CompleteProgram
import Mathlib

/-!
# Printing and parsing again

The printer's text of a program that was read from a source text is read back
as the same program: the scan of the text has no issue, the parser accepts it,
and the program it gives differs from the printed one only in its spans, so
that printing it gives the same text again (`Program.print_reparses`).

The one condition is on the source's string literals: they must have no line
break. The scanner keeps a carriage return or a form feed inside a literal, but
indenting a body cuts the text at every line break (`Text.lines`), so such a
literal inside a function is printed over two lines and no longer reads as
one. A source with no string literal, or with literals of ordinary characters,
always prints to a text that reads back.

## Stages

* printing depends on a program only up to its spans (`Program.print_erase`);
* the parser's program is derived by the grammar from the scanned word, whose
  lexemes are well formed (`Program.parse_sound`, `scanFrom_wellFormed`);
* the printed text spells a word from which the grammar derives the same
  program (`ProgramOf.prints`);
* the parser accepts every word of the grammar, with the program it derives up
  to spans (`Program.parse_complete`).
-/

namespace EggFront

/-! ## Printing ignores spans

Every text the printer writes is made of names, operators and literal values,
never of spans; a symbol's label is kept by `erase`. -/

@[simp] theorem TypeExpr.name_erase (t : TypeExpr) : t.erase.name = t.name := by
  cases t <;> rfl

namespace PrintStyle

variable (st : PrintStyle)

@[simp] theorem use_erase (i : Ident) : st.use i.erase = st.use i := rfl

@[simp] theorem typeText_erase (t : TypeExpr) : st.typeText t.erase = st.typeText t := by
  cases t <;> rfl

@[simp] theorem varDeclText_erase (d : VarDecl) : st.varDeclText d.erase = st.varDeclText d := by
  simp [varDeclText, VarDecl.erase, Ident.erase]

@[simp] theorem locText_erase (l : Loc) : st.locText l.erase = st.locText l := by
  induction l with
  | var i => rfl
  | field b n _ _ _ ih => simp [locText, Loc.erase, Ident.erase, ih]

mutual

theorem exprText_erase : (e : Expr) → st.exprText e.erase = st.exprText e
  | .int .. | .str .. | .loc .. => by simp [Expr.erase, exprText]
  | .bool b _ => by cases b <;> rfl
  | .assign t v _ => by simp only [Expr.erase, exprText, locText_erase, exprText_erase v]
  | .call c args _ => by simp only [Expr.erase, exprText, use_erase, exprTexts_eraseAll args]
  | .unary op e _ => by simp only [Expr.erase, exprText, exprText_erase e]
  | .binary l op r _ => by simp only [Expr.erase, exprText, exprText_erase l, exprText_erase r]

theorem exprTexts_eraseAll : (es : List Expr) → st.exprTexts (Expr.eraseAll es) = st.exprTexts es
  | [] => rfl
  | e :: es => by simp only [Expr.eraseAll, exprTexts, exprText_erase e, exprTexts_eraseAll es]

end

@[simp] theorem exprTexts_map_erase (es : List Expr) : st.exprTexts (es.map Expr.erase) = st.exprTexts es := by
  rw [← Expr.eraseAll_eq_map, exprTexts_eraseAll]

theorem varDeclLines_erase (ds : List VarDecl) :
    (ds.map VarDecl.erase).map (st.indented ∘ st.varDeclText) = ds.map (st.indented ∘ st.varDeclText) := by
  simp [Function.comp_def]

mutual

theorem stmtText_erase : (s : Stmt) → st.stmtText s.erase = st.stmtText s
  | .assign t v _ _ => by simp only [Stmt.erase, stmtText, locText_erase, exprText_erase]
  | .increment t _ | .decrement t _ | .read t _ => by simp only [Stmt.erase, stmtText, locText_erase]
  | .write v _ => by simp only [Stmt.erase, stmtText, exprText_erase]
  | .ifThen c ds ss _ | .whileLoop c ds ss _ | .repeatLoop c ds ss _ => by
    simp only [Stmt.erase, stmtText, headed, exprText_erase, varDeclLines_erase, stmtLines_eraseAll ss]
  | .ifThenElse c ds ss eds ess _ => by
    simp only [Stmt.erase, stmtText, exprText_erase, varDeclLines_erase, stmtLines_eraseAll ss,
      stmtLines_eraseAll ess]
  | .call c args _ _ => by simp only [Stmt.erase, stmtText, use_erase, exprTexts_map_erase]
  | .ret none _ => by simp only [Stmt.erase, Option.map_none, stmtText]
  | .ret (some v) _ => by simp only [Stmt.erase, Option.map_some, stmtText, exprText_erase]

theorem stmtLines_eraseAll : (ss : List Stmt) → st.stmtLines (Stmt.eraseAll ss) = st.stmtLines ss
  | [] => rfl
  | s :: ss => by simp only [Stmt.eraseAll, stmtLines, stmtText_erase s, stmtLines_eraseAll ss]

end

theorem declText_erase (d : Decl) : st.declText d.erase = st.declText d := by
  cases d with
  | var d => simp [Decl.erase, declText]
  | fn f =>
    simp only [Decl.erase, declText, fnText, FnDecl.erase, varDeclLines_erase, ← Stmt.eraseAll_eq_map,
      stmtLines_eraseAll]
    simp [Ident.erase, Param.erase, Function.comp_def]
  | struct d => simp [Decl.erase, declText, structText, StructDecl.erase, Ident.erase, Function.comp_def]

end PrintStyle

/-- Printing depends on a program only up to its spans. -/
theorem Program.print_erase (st : PrintStyle) (p : Program) : p.erase.print st = p.print st := by
  rw [PrintStyle.print_eq_join, PrintStyle.print_eq_join]
  simp [Program.erase, Function.comp_def, PrintStyle.declText_erase]

/-! ## Reading a source -/

/-- A source text is read into a program exactly when its scan has no error and
the parser accepts its tokens. -/
theorem Program.ofSource_eq_ok {file text : String} {p : Program} :
    (Program.ofSource file text).2 = .ok p ↔
      (scan file text).hasError = false ∧ Program.parse (scan file text).tokens (scan file text).eof = .ok p := by
  simp only [Program.ofSource, Scan.accept]
  cases h : (scan file text).hasError with
  | true => simp
  | false =>
    cases hparse : Program.parse (scan file text).tokens (scan file text).eof <;> simp [Except.mapError, hparse]

/-- The lexemes of a scan can be printed back when its string literals have no
line break. -/
theorem scan_reprintable {file text : String}
    (hlit : ∀ t ∈ (scan file text).tokens, t.kind = .stringLit → ∀ c ∈ t.text.toList, Text.isLineBreak c = false) :
    ∀ l ∈ lexemes (scan file text).tokens, Lexeme.Reprintable l := by
  intro l hl
  obtain ⟨t, ht, rfl⟩ := List.mem_map.1 hl
  refine ⟨scanFrom_wellFormed _ _ _ t ht, fun hk => ?_⟩
  simp only [onlyLineFeeds, List.all_eq_true]
  intro c hc
  simp [hlit t ht hk c hc]

/-! ## The round trip -/

/-- **Printing a parsed program reads back.** If a source text is read into the
program `p` and its string literals have no line break, then the text `p`
prints to, in any style, is read (under any file name) into a program `p'`
that differs from `p` only in its spans; so `p'` prints to the same text. -/
theorem Program.print_reparses {file text : String} {p : Program}
    (hp : (Program.ofSource file text).2 = .ok p)
    (hlit : ∀ t ∈ (scan file text).tokens, t.kind = .stringLit →
      ∀ c ∈ t.text.toList, Text.isLineBreak c = false)
    (st : PrintStyle) (file' : String) :
    ∃ p', (Program.ofSource file' (p.print st)).2 = .ok p' ∧ p'.erase = p.erase ∧ p'.print st = p.print st := by
  obtain ⟨-, hparse⟩ := Program.ofSource_eq_ok.1 hp
  -- the program is the grammar's, for a word of lexemes that print back
  have hder := Program.parse_sound (scanFrom_eof_kind _ _ _) (scanFrom_unmarked _ _ _) hparse
  obtain ⟨w, hw, hlex, hiss⟩ := hder.prints st (scan_reprintable hlit)
  -- its text scans with no issue to a word of the grammar for the same program
  have hdiag : (scan file' (p.print st)).diagnostics = [] := (scanFrom_diagnostics_eq_nil _ _ _).2 hiss
  have hword : lexemes (scan file' (p.print st)).tokens = w := (scanFrom_lexemes _ _ _).trans hlex
  rw [← hword] at hw
  obtain ⟨p', hparse', herase⟩ := Program.parse_complete hw (scan file' (p.print st)).eof
  refine ⟨p', Program.ofSource_eq_ok.2 ⟨by simp [Scan.hasError, hdiag], hparse'⟩, herase, ?_⟩
  rw [← Program.print_erase st p', herase, Program.print_erase]

/-- A function with a nested block and a string literal prints to a text that
reads back. -/
theorem print_reparses_nested_if :
    ∃ p, (Program.ofSource "main.egg" "int f() \x7b\n  if (true) \x7b cout << \"hi\"; \x7d\n\x7d").2 = .ok p ∧
      ∃ p', (Program.ofSource "main.egg" (p.print {})).2 = .ok p' ∧ p'.erase = p.erase ∧
        p'.print {} = p.print {} := by
  have hok : (Program.ofSource "main.egg" "int f() \x7b\n  if (true) \x7b cout << \"hi\"; \x7d\n\x7d").2.isOk = true := by
    decide +kernel
  have hlit : ∀ t ∈ (scan "main.egg" "int f() \x7b\n  if (true) \x7b cout << \"hi\"; \x7d\n\x7d").tokens,
      t.kind = .stringLit → ∀ c ∈ t.text.toList, Text.isLineBreak c = false := by
    -- checked as a `Bool`: the `Prop` instance does not reduce once all of Mathlib is open
    have h : ((scan "main.egg" "int f() \x7b\n  if (true) \x7b cout << \"hi\"; \x7d\n\x7d").tokens.all
        fun t => t.kind != .stringLit || t.text.toList.all fun c => !Text.isLineBreak c) = true := by
      decide +kernel
    intro t ht hk c hc
    have ht' := List.all_eq_true.1 h t ht
    simp only [hk, bne_self_eq_false, Bool.false_or, List.all_eq_true, Bool.not_eq_eq_eq_not,
      Bool.not_true] at ht'
    exact ht' c hc
  cases hp : (Program.ofSource "main.egg" "int f() \x7b\n  if (true) \x7b cout << \"hi\"; \x7d\n\x7d").2 with
  | error e =>
    rw [hp] at hok
    cases hok
  | ok p => exact ⟨p, rfl, Program.print_reparses hp hlit {} "main.egg"⟩

/-- Without the condition on literals the round trip fails: a carriage return in
a literal inside a function is printed as a line break with the body's
indentation after it, and the printed text is not read. -/
theorem print_splits_carriage_return :
    ∃ p, (Program.ofSource "main.egg" "int f() \x7b\n  cout << \"a\rb\";\n\x7d").2 = .ok p ∧
      (Program.ofSource "main.egg" (p.print {})).2.isOk = false := by
  have h : (match (Program.ofSource "main.egg" "int f() \x7b\n  cout << \"a\rb\";\n\x7d").2 with
      | .ok p => !(Program.ofSource "main.egg" (p.print {})).2.isOk
      | .error _ => false) = true := by
    decide +kernel
  cases hp : (Program.ofSource "main.egg" "int f() \x7b\n  cout << \"a\rb\";\n\x7d").2 with
  | error e =>
    rw [hp] at h
    cases h
  | ok p =>
    rw [hp] at h
    exact ⟨p, rfl, by simpa using h⟩

end EggFront
