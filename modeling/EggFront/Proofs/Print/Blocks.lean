import EggFront.Proofs.Print.Terms

/-!
# Printed statements and programs read back

A statement is printed on a line of its own; a body puts its declarations and
statements on the following lines, indented, and closes with `}` on a line of
its own. Every line ends before a line feed, and a line feed ends every piece
of the scanner, so each line is read back on its own: the printed text of a
statement spells a word from which the grammar derives that statement
(`StmtOf.prints`), and the printed text of a program spells a word from which
it derives that program (`ProgramOf.prints`).

Indenting a line keeps its tokens when its only line breaks are line feeds and
it does not end with one (`PrintStyle.indented_scansAs`); every printed
statement ends with `;` or `}`.
-/

namespace EggFront

open Grammar

/-! ## Bodies -/

namespace PrintStyle

variable (st : PrintStyle)

/-- The lines of a body after its header: each declaration and statement on a
line of its own, indented, then the closing brace on a line of its own. -/
def bodyText (ds : List VarDecl) (ss : List Stmt) : String :=
  String.join (ds.map fun d => "\n" ++ st.indented (st.varDeclText d)) ++
    String.join (ss.map fun s => "\n" ++ st.indented (st.stmtText s)) ++ "\n\x7d"

theorem stmtLines_eq_map (ss : List Stmt) : st.stmtLines ss = ss.map fun s => st.indented (st.stmtText s) := by
  induction ss with
  | nil => simp [stmtLines]
  | cons s ss ih => simp [stmtLines, ih]

theorem headed_eq (header : String) (ds : List VarDecl) (ss : List Stmt) :
    st.headed header ds (st.stmtLines ss) = header ++ st.bodyText ds ss := by
  rw [headed]
  simp only [List.append_assoc, List.cons_append]
  rw [intercalate_cons_eq_join]
  simp [bodyText, String.join_append, stmtLines_eq_map, Function.comp_def, String.append_assoc]

theorem stmtText_ifThenElse (c : Expr) (ds eds : List VarDecl) (ss ess : List Stmt) (s : Span) :
    st.stmtText (.ifThenElse c ds ss eds ess s) =
      "if (" ++ st.exprText c ++ ") \x7b" ++ st.bodyText ds ss ++ "\nelse \x7b" ++ st.bodyText eds ess := by
  rw [stmtText]
  simp only [List.append_assoc, List.cons_append]
  rw [intercalate_cons_eq_join, ← String.toList_inj]
  simp [bodyText, String.toList_join, stmtLines_eq_map, Function.comp_def]

theorem fnText_eq (f : FnDecl) :
    st.fnText f = f.result.name ++ " " ++ f.name.name ++ "(" ++
      ", ".intercalate (f.params.map fun p => p.type.name ++ " " ++ p.name.name) ++ ") \x7b" ++
      st.bodyText f.decls f.body := by
  rw [fnText]
  simp only [List.append_assoc, List.cons_append]
  rw [intercalate_cons_eq_join]
  simp [bodyText, String.join_append, stmtLines_eq_map, Function.comp_def, String.append_assoc]

theorem structText_eq (d : StructDecl) :
    st.structText d = "struct " ++ d.name.name ++ " \x7b" ++
      String.join (d.fields.map fun f => "\n" ++ st.indented (st.varDeclText f)) ++ "\n\x7d;" := by
  rw [structText]
  simp only [List.append_assoc, List.cons_append]
  rw [intercalate_cons_eq_join]
  simp [String.join_append, Function.comp_def, String.append_assoc]

/-- A program's text is each declaration's text followed by a line feed. -/
theorem print_eq_join (p : Program) :
    p.print st = String.join (p.decls.map fun d => st.declText d ++ "\n") := by
  unfold Program.print
  cases p.decls with
  | nil => rfl
  | cons d ds =>
    simp only [List.map_cons]
    induction ds generalizing d with
    | nil => simp
    | cons d' ds ih =>
      rw [List.map_cons, String.intercalate_cons_cons, String.append_assoc, String.append_assoc, ih d']
      simp [String.append_assoc]

end PrintStyle

/-! ## Fixed pieces

The keywords and punctuation the printer writes around names and expressions,
each ending with a blank or a mark that no character extends, so that they
spell their tokens whatever follows. -/

section Pieces

variable {f : Option Char}

/-- A keyword followed by a space. -/
theorem spells_keyword {x : String} {k : TokenKind} (hx : isWord x = true)
    (hk : TokenKind.keyword? x = some k) : Spells (x.toList ++ [' ']) [(k, x)] f := by
  have h := (spells_word hx (f := some ' ') (endsWord_some rfl)).append (spells_blank (c := ' ') (f := f) rfl)
  simpa [hk] using h

theorem spells_semicolon : Spells ";".toList [(.semicolon, ";")] f :=
  spells_punct (c := ';') (by decide) rfl

theorem spells_lcurly : Spells "\x7b".toList [(.lcurly, "\x7b")] f :=
  spells_punct (c := '\x7b') (by decide) rfl

theorem spells_increment : Spells "++;".toList [(.plusPlus, "++"), (.semicolon, ";")] f :=
  (spells_pair (c := '+') (d := '+') rfl).append spells_semicolon

theorem spells_decrement : Spells "--;".toList [(.minusMinus, "--"), (.semicolon, ";")] f :=
  (spells_pair (c := '-') (d := '-') rfl).append spells_semicolon

theorem spells_cin : Spells "cin >> ".toList [(.kwCin, "cin"), (.read, ">>")] f :=
  (spells_keyword (x := "cin") rfl rfl).append ((spells_pair (c := '>') (d := '>') rfl).append
    (spells_blank rfl))

theorem spells_cout : Spells "cout << ".toList [(.kwCout, "cout"), (.write, "<<")] f :=
  (spells_keyword (x := "cout") rfl rfl).append ((spells_pair (c := '<') (d := '<') rfl).append
    (spells_blank rfl))

theorem spells_if : Spells "if (".toList [(.kwIf, "if"), (.lparen, "(")] f :=
  (spells_keyword (x := "if") rfl rfl).append (spells_punct (c := '(') (by decide) rfl)

theorem spells_while : Spells "while (".toList [(.kwWhile, "while"), (.lparen, "(")] f :=
  (spells_keyword (x := "while") rfl rfl).append (spells_punct (c := '(') (by decide) rfl)

theorem spells_repeat : Spells "repeat (".toList [(.kwRepeat, "repeat"), (.lparen, "(")] f :=
  (spells_keyword (x := "repeat") rfl rfl).append (spells_punct (c := '(') (by decide) rfl)

/-- The close of a condition or a parameter list, before the body's brace. -/
theorem spells_rparen_space : Spells ") ".toList [(.rparen, ")")] f :=
  (spells_punct (c := ')') (by decide) rfl).append (spells_blank rfl)

theorem spells_else : Spells "\nelse ".toList [(.kwElse, "else")] f :=
  (spells_blank (c := '\n') rfl).append (spells_keyword (x := "else") rfl rfl)

theorem spells_close_call : Spells ");".toList [(.rparen, ")"), (.semicolon, ";")] f :=
  (spells_punct (c := ')') (by decide) rfl).append spells_semicolon

theorem spells_return : Spells "return ".toList [(.kwReturn, "return")] f :=
  spells_keyword (x := "return") rfl rfl

theorem spells_return_semicolon : Spells "return;".toList [(.kwReturn, "return"), (.semicolon, ";")] f :=
  (spells_word (x := "return") rfl (endsWord_some rfl)).append spells_semicolon

theorem spells_struct : Spells "struct ".toList [(.kwStruct, "struct")] f :=
  spells_keyword (x := "struct") rfl rfl

theorem spells_open_body : Spells " \x7b".toList [(.lcurly, "\x7b")] f :=
  (spells_blank (c := ' ') rfl).append spells_lcurly

theorem spells_close_body : Spells "\n\x7d".toList [(.rcurly, "\x7d")] f :=
  (spells_blank (c := '\n') rfl).append (spells_punct (c := '\x7d') (by decide) rfl)

theorem spells_close_struct : Spells "\n\x7d;".toList [(.rcurly, "\x7d"), (.semicolon, ";")] f :=
  spells_close_body.append spells_semicolon

end Pieces

/-! ## Lines -/

/-- A line of a block: it spells a word that `P` accepts, read back before a
line feed, and its only line breaks are line feeds. -/
structure LineOf (P : List Lexeme → Prop) (text : List Char) : Prop where
  spells : ∃ w, P w ∧ Spells text w (some '\n')
  lf : onlyLineFeeds text = true

/-- A line that does not end with a line feed, so that indenting it keeps its
tokens. -/
structure PrintsLine (P : List Lexeme → Prop) (text : List Char) : Prop extends LineOf P text where
  last : text.getLast? ≠ some '\n'

/-- Lines, each after a line feed. -/
structure LinesOf (P : List Lexeme → Prop) (text : List Char) : Prop extends LineOf P text where
  head : ∀ c ∈ text.head?, c = '\n'

variable {P Q R : List Lexeme → Prop}

theorem PrintsLine.indented (st : PrintStyle) {s : String} (h : PrintsLine P s.toList) :
    LineOf P (st.indented s).toList := by
  obtain ⟨⟨⟨w, hw, hsp⟩, hlf⟩, hlast⟩ := h
  exact ⟨⟨w, hw, (st.indented_scansAs hlf hlast).spells hsp⟩, st.onlyLineFeeds_indented hlf⟩

theorem linesOf_nil (h : P []) : LinesOf P [] :=
  ⟨⟨⟨[], h, Spells.nil⟩, rfl⟩, by simp⟩

/-- A line feed and a line before more lines. -/
theorem LinesOf.cons {a b : List Char} (ha : LineOf P a) (hb : LinesOf Q b)
    (hR : ∀ w w', P w → Q w' → R (w ++ w')) : LinesOf R ("\n".toList ++ (a ++ b)) := by
  obtain ⟨⟨w, hw, hsp⟩, hlf⟩ := ha
  obtain ⟨⟨⟨w', hw', hsp'⟩, hlf'⟩, hhead⟩ := hb
  -- what follows the line is a line feed, or the line feed after the last line
  have hf : b.head?.or (some '\n') = some '\n' := by
    cases b with
    | nil => rfl
    | cons c cs => simp [hhead c rfl]
  rw [← hf] at hsp
  exact ⟨⟨⟨w ++ w', hR w w' hw hw', (spells_blank (c := '\n') rfl).append (hsp.append hsp')⟩,
    by simp [Text.isLineBreak, hlf, hlf']⟩, by simp⟩

/-! ## Declarations of variables -/

namespace Grammar

/-- A base type's keyword, before a space, spells a lexeme the grammar reads as
the same type. -/
theorem BaseTypeOf.prints {a : Lexeme} {ty : TypeExpr} (h : BaseTypeOf a ty) :
    ∃ a', BaseTypeOf a' ty ∧ Spells ty.text.toList [a'] (some ' ') ∧
      onlyLineFeeds ty.text.toList = true := by
  cases h with
  | int => exact ⟨_, .int, spells_word (x := "int") rfl (endsWord_some rfl), by simp only [TypeExpr.text]; decide⟩
  | bool => exact ⟨_, .bool, spells_word (x := "bool") rfl (endsWord_some rfl), by simp only [TypeExpr.text]; decide⟩
  | void => exact ⟨_, .void, spells_word (x := "void") rfl (endsWord_some rfl), by simp only [TypeExpr.text]; decide⟩

theorem BaseTypeOf.typeText_eq {a : Lexeme} {ty : TypeExpr} (h : BaseTypeOf a ty) (st : PrintStyle) :
    st.typeText ty = ty.text := by
  cases h <;> rfl

theorem BaseTypeOf.name_eq {a : Lexeme} {ty : TypeExpr} (h : BaseTypeOf a ty) : ty.name = ty.text := by
  cases h <;> rfl

variable (st : PrintStyle)

theorem VarDeclOf.prints {w : List Lexeme} {d : VarDecl} (h : VarDeclOf w d)
    (hw : ∀ l ∈ w, Lexeme.WellFormed l) : PrintsLine (VarDeclOf · d) (st.varDeclText d).toList := by
  cases h with
  | @base a ty n y s s' hb =>
    obtain ⟨a', hb', hsp, hlf⟩ := hb.prints
    obtain ⟨hn, -, hnlf⟩ := spells_name (hw (.ident, n) (by simp))
    simp only [PrintStyle.varDeclText, hb.typeText_eq, String.toList_append, List.append_assoc]
    exact ⟨⟨⟨_, .base hb', hsp.append ((spells_blank rfl).append ((hn _ (endsWord_some rfl)).append
      spells_semicolon))⟩, by simp [Text.isLineBreak, hlf, hnlf]⟩, by simp [List.getLast?_cons, List.getLast?_append]⟩
  | @struct x t n y s s' s'' s''' =>
    obtain ⟨ht, -, htlf⟩ := spells_name (hw (.ident, t) (by simp))
    obtain ⟨hn, -, hnlf⟩ := spells_name (hw (.ident, n) (by simp))
    simp only [PrintStyle.varDeclText, PrintStyle.typeText, PrintStyle.use_none, String.toList_append,
      List.append_assoc]
    exact ⟨⟨⟨_, .struct, spells_struct.append ((ht _ (endsWord_some rfl)).append ((spells_blank rfl).append
      ((hn _ (endsWord_some rfl)).append spells_semicolon)))⟩, by simp [Text.isLineBreak, htlf, hnlf]⟩,
      by simp [List.getLast?_cons, List.getLast?_append]⟩

theorem VarDeclsOf.prints {w : List Lexeme} {ds : List VarDecl} (h : VarDeclsOf w ds)
    (hw : ∀ l ∈ w, Lexeme.WellFormed l) :
    LinesOf (VarDeclsOf · ds) (String.join (ds.map fun d => "\n" ++ st.indented (st.varDeclText d))).toList := by
  induction h with
  | nil => exact linesOf_nil .nil
  | cons hd _ ih =>
    simp only [List.map_cons, String.join_cons, String.toList_append, List.append_assoc]
    exact LinesOf.cons ((hd.prints st fun l hl => hw l (by simp [hl])).indented st)
      (ih fun l hl => hw l (by simp [hl])) fun _ _ => .cons

/-! ## Statements -/

theorem getLast?_append_ne_lf {a b : List Char} (hb : b.getLast? ≠ some '\n') (hne : b ≠ []) :
    (a ++ b).getLast? ≠ some '\n' := by
  rw [List.getLast?_append]
  cases hl : b.getLast? with
  | none => exact absurd (List.getLast?_eq_none_iff.1 hl) hne
  | some x =>
    rw [hl] at hb
    simpa using hb

variable {parens : Bool} {ds : List VarDecl} {ss : List Stmt}

theorem printsLine_assign {a b : String} {t : Loc} {v : Expr} {s s' : Span} (ht : PrintsLoc a.toList t)
    (hv : PrintsTerm parens b.toList v) :
    PrintsLine (StmtOf parens · (.assign t v s s')) (a ++ " = " ++ b ++ ";").toList := by
  obtain ⟨⟨wt, hwt, hspt⟩, -, hlft⟩ := ht
  obtain ⟨⟨wv, hwv, hspv⟩, -, hlfv⟩ := hv
  have hd : StmtOf parens (wt ++ (.assign, "=") :: wv ++ [(.semicolon, ";")]) (.assign t v s s') :=
    .assign hwt ((ExpOf.term hwv).lower (Nat.zero_le 6))
  simp only [List.cons_append, List.append_assoc] at hd
  simp only [String.toList_append, List.append_assoc]
  exact ⟨⟨⟨_, hd, (hspt _ (endsWord_some rfl)).append (spells_assignOp.append
    ((hspv _ (endsWord_some rfl)).append spells_semicolon))⟩, by simp [Text.isLineBreak, hlft, hlfv]⟩,
    by simp [List.getLast?_cons]⟩

theorem printsLine_increment {a : String} {t : Loc} {s : Span} (ht : PrintsLoc a.toList t) :
    PrintsLine (StmtOf parens · (.increment t s)) (a ++ "++;").toList := by
  obtain ⟨⟨wt, hwt, hspt⟩, -, hlft⟩ := ht
  simp only [String.toList_append]
  exact ⟨⟨⟨_, .increment hwt, (hspt _ (endsWord_some rfl)).append spells_increment⟩,
    by simp [Text.isLineBreak, hlft]⟩, by simp⟩

theorem printsLine_decrement {a : String} {t : Loc} {s : Span} (ht : PrintsLoc a.toList t) :
    PrintsLine (StmtOf parens · (.decrement t s)) (a ++ "--;").toList := by
  obtain ⟨⟨wt, hwt, hspt⟩, -, hlft⟩ := ht
  simp only [String.toList_append]
  exact ⟨⟨⟨_, .decrement hwt, (hspt _ (endsWord_some rfl)).append spells_decrement⟩,
    by simp [Text.isLineBreak, hlft]⟩, by simp⟩

theorem printsLine_read {a : String} {t : Loc} {s : Span} (ht : PrintsLoc a.toList t) :
    PrintsLine (StmtOf parens · (.read t s)) ("cin >> " ++ a ++ ";").toList := by
  obtain ⟨⟨wt, hwt, hspt⟩, -, hlft⟩ := ht
  have hd : StmtOf parens ((.kwCin, "cin") :: (.read, ">>") :: wt ++ [(.semicolon, ";")]) (.read t s) :=
    .read hwt
  simp only [List.cons_append] at hd
  simp only [String.toList_append, List.append_assoc]
  exact ⟨⟨⟨_, hd, spells_cin.append ((hspt _ (endsWord_some rfl)).append spells_semicolon)⟩,
    by simp [Text.isLineBreak, hlft]⟩, by simp [List.getLast?_cons]⟩

theorem printsLine_write {b : String} {v : Expr} {s : Span} (hv : PrintsTerm parens b.toList v) :
    PrintsLine (StmtOf parens · (.write v s)) ("cout << " ++ b ++ ";").toList := by
  obtain ⟨⟨wv, hwv, hspv⟩, -, hlfv⟩ := hv
  have hd : StmtOf parens ((.kwCout, "cout") :: (.write, "<<") :: wv ++ [(.semicolon, ";")]) (.write v s) :=
    .write ((ExpOf.term hwv).lower (Nat.zero_le 6))
  simp only [List.cons_append] at hd
  simp only [String.toList_append, List.append_assoc]
  exact ⟨⟨⟨_, hd, spells_cout.append ((hspv _ (endsWord_some rfl)).append spells_semicolon)⟩,
    by simp [Text.isLineBreak, hlfv]⟩, by simp [List.getLast?_cons]⟩

/-- The statements with a condition and a body (`if`, `while`, `repeat`): a
keyword and `(`, the condition, `) `, and the body. -/
theorem printsLine_headed {head a body : String} {c : Expr} {kw : TokenKind} {x : String}
    {P : List Lexeme → Prop} (hhead : ∀ {f}, Spells head.toList [(kw, x), (.lparen, "(")] f)
    (hlfhead : onlyLineFeeds head.toList = true) (hc : PrintsTerm parens a.toList c)
    (hb : PrintsLine (BlockOf parens · ds ss) ("\x7b" ++ body).toList)
    (mk : ∀ {w w'}, ExpOf parens 0 w c → BlockOf parens w' ds ss →
      P ((kw, x) :: (.lparen, "(") :: w ++ (.rparen, ")") :: w')) :
    PrintsLine P (head ++ a ++ ") \x7b" ++ body).toList := by
  obtain ⟨⟨wc, hwc, hspc⟩, -, hlfc⟩ := hc
  obtain ⟨⟨⟨wb, hwb, hspb⟩, hlfb⟩, hlast⟩ := hb
  have hd := mk ((ExpOf.term hwc).lower (Nat.zero_le 6)) hwb
  simp only [List.cons_append] at hd
  -- the body's brace is read with the body
  have htext : (head ++ a ++ ") \x7b" ++ body).toList =
      head.toList ++ (a.toList ++ (") ".toList ++ ("\x7b" ++ body).toList)) := by
    simp [String.toList_append]
  rw [htext]
  exact ⟨⟨⟨_, hd, hhead.append ((hspc _ (endsWord_some rfl)).append (spells_rparen_space.append hspb))⟩,
    by simp only [onlyLineFeeds_append, hlfhead, hlfc, hlfb]; decide⟩,
    getLast?_append_ne_lf (getLast?_append_ne_lf (getLast?_append_ne_lf hlast (by simp)) (by simp)) (by simp)⟩

theorem printsLine_ifThenElse {a body body' : String} {c : Expr} {eds : List VarDecl} {ess : List Stmt}
    {s : Span} (hc : PrintsTerm parens a.toList c)
    (hb : PrintsLine (BlockOf parens · ds ss) ("\x7b" ++ body).toList)
    (hb' : PrintsLine (BlockOf parens · eds ess) ("\x7b" ++ body').toList) :
    PrintsLine (StmtOf parens · (.ifThenElse c ds ss eds ess s))
      ("if (" ++ a ++ ") \x7b" ++ body ++ "\nelse \x7b" ++ body').toList := by
  obtain ⟨⟨wc, hwc, hspc⟩, -, hlfc⟩ := hc
  obtain ⟨⟨⟨wb, hwb, hspb⟩, hlfb⟩, -⟩ := hb
  obtain ⟨⟨⟨wb', hwb', hspb'⟩, hlfb'⟩, hlast⟩ := hb'
  have hd : StmtOf parens ((.kwIf, "if") :: (.lparen, "(") :: wc ++ (.rparen, ")") :: wb ++
      (.kwElse, "else") :: wb') (.ifThenElse c ds ss eds ess s) :=
    .ifThenElse ((ExpOf.term hwc).lower (Nat.zero_le 6)) hwb hwb'
  simp only [List.cons_append, List.append_assoc] at hd
  have htext : ("if (" ++ a ++ ") \x7b" ++ body ++ "\nelse \x7b" ++ body').toList =
      "if (".toList ++ (a.toList ++ (") ".toList ++ (("\x7b" ++ body).toList ++
        ("\nelse ".toList ++ ("\x7b" ++ body').toList)))) := by
    simp [String.toList_append]
  rw [htext]
  exact ⟨⟨⟨_, hd, spells_if.append ((hspc _ (endsWord_some rfl)).append (spells_rparen_space.append
    (hspb.append (spells_else.append hspb'))))⟩,
    by simp only [onlyLineFeeds_append, hlfc, hlfb, hlfb']; decide⟩,
    getLast?_append_ne_lf (getLast?_append_ne_lf (getLast?_append_ne_lf (getLast?_append_ne_lf
      (getLast?_append_ne_lf hlast (by simp)) (by simp)) (by simp)) (by simp)) (by simp)⟩

theorem printsLine_call {n a : String} {es : List Expr} {s s' s'' : Span} (hn : Lexeme.WellFormed (.ident, n))
    (ha : PrintsArgs parens a.toList es) :
    PrintsLine (StmtOf parens · (.call ⟨n, s, none⟩ es s' s'')) (n ++ "(" ++ a ++ ");").toList := by
  obtain ⟨⟨wa, hwa, hspa⟩, hlfa⟩ := ha
  obtain ⟨hsp, -, hlf⟩ := spells_name hn
  have hd : StmtOf parens ((.ident, n) :: (.lparen, "(") :: wa ++ [(.rparen, ")"), (.semicolon, ";")])
      (.call ⟨n, s, none⟩ es s' s'') :=
    .call hwa
  simp only [List.cons_append] at hd
  simp only [String.toList_append, List.append_assoc]
  exact ⟨⟨⟨_, hd, (hsp _ (endsWord_some rfl)).append ((spells_punct (c := '(') (by decide) rfl).append
    (hspa.append spells_close_call))⟩, by simp [Text.isLineBreak, hlf, hlfa]⟩, by simp [List.getLast?_cons]⟩

theorem printsLine_return {s : Span} : PrintsLine (StmtOf parens · (.ret none s)) "return;".toList :=
  ⟨⟨⟨_, .retNone, spells_return_semicolon⟩, by decide⟩, by decide⟩

theorem printsLine_returnValue {b : String} {v : Expr} {s : Span} (hv : PrintsTerm parens b.toList v) :
    PrintsLine (StmtOf parens · (.ret (some v) s)) ("return " ++ b ++ ";").toList := by
  obtain ⟨⟨wv, hwv, hspv⟩, -, hlfv⟩ := hv
  have hd : StmtOf parens ((.kwReturn, "return") :: wv ++ [(.semicolon, ";")]) (.ret (some v) s) :=
    .retSome ((ExpOf.term hwv).lower (Nat.zero_le 6))
  simp only [List.cons_append] at hd
  simp only [String.toList_append, List.append_assoc]
  exact ⟨⟨⟨_, hd, spells_return.append ((hspv _ (endsWord_some rfl)).append spells_semicolon)⟩,
    by simp [Text.isLineBreak, hlfv]⟩, by simp [List.getLast?_cons]⟩

/-- A body: the opening brace, the lines of its declarations and of its
statements, and the closing brace on a line of its own. -/
theorem printsLine_block {a b : List Char} (hds : LinesOf (VarDeclsOf · ds) a)
    (hss : LinesOf (StmtsOf parens · ss) b) :
    PrintsLine (BlockOf parens · ds ss) ("\x7b".toList ++ (a ++ (b ++ "\n\x7d".toList))) := by
  obtain ⟨⟨⟨wa, hwa, hspa⟩, hlfa⟩, -⟩ := hds
  obtain ⟨⟨⟨wb, hwb, hspb⟩, hlfb⟩, hhead⟩ := hss
  have hd : BlockOf parens ((.lcurly, "\x7b") :: wa ++ wb ++ [(.rcurly, "\x7d")]) ds ss := .mk hwa hwb
  simp only [List.cons_append, List.append_assoc] at hd
  -- the declarations are followed by a line feed: the first of the statements' or the last
  have hf : (b ++ "\n\x7d".toList).head?.or (some '\n') = some '\n' := by
    cases b with
    | nil => rfl
    | cons c cs => simp [hhead c rfl]
  rw [← hf] at hspa
  exact ⟨⟨⟨_, hd, spells_lcurly.append (hspa.append (hspb.append spells_close_body))⟩,
    by simp [Text.isLineBreak, hlfa, hlfb]⟩, by simp [List.getLast?_cons]⟩

variable (st : PrintStyle)

mutual

/-- **The text of a derived statement reads back.** It spells, before a line
feed, a word from which the grammar derives the same statement. -/
theorem StmtOf.prints {w : List Lexeme} {s : Stmt} :
    StmtOf parens w s → (∀ l ∈ w, Lexeme.Reprintable l) → PrintsLine (StmtOf parens · s) (st.stmtText s).toList
  | .assign ht hv, hw => by
    simp only [PrintStyle.stmtText]
    exact printsLine_assign (ht.prints st fun l hl => (hw l (by simp [hl])).1)
      (hv.prints st fun l hl => hw l (by simp [hl]))
  | .increment ht, hw => by
    simp only [PrintStyle.stmtText]
    exact printsLine_increment (ht.prints st fun l hl => (hw l (by simp [hl])).1)
  | .decrement ht, hw => by
    simp only [PrintStyle.stmtText]
    exact printsLine_decrement (ht.prints st fun l hl => (hw l (by simp [hl])).1)
  | .read ht, hw => by
    simp only [PrintStyle.stmtText]
    exact printsLine_read (ht.prints st fun l hl => (hw l (by simp [hl])).1)
  | .write hv, hw => by
    simp only [PrintStyle.stmtText]
    exact printsLine_write (hv.prints st fun l hl => hw l (by simp [hl]))
  | .ifThen hc hb, hw => by
    simp only [PrintStyle.stmtText, PrintStyle.headed_eq]
    exact printsLine_headed spells_if (by decide) (hc.prints st fun l hl => hw l (by simp [hl]))
      (hb.prints fun l hl => hw l (by simp [hl])) .ifThen
  | .whileLoop hc hb, hw => by
    simp only [PrintStyle.stmtText, PrintStyle.headed_eq]
    exact printsLine_headed spells_while (by decide) (hc.prints st fun l hl => hw l (by simp [hl]))
      (hb.prints fun l hl => hw l (by simp [hl])) .whileLoop
  | .repeatLoop hc hb, hw => by
    simp only [PrintStyle.stmtText, PrintStyle.headed_eq]
    exact printsLine_headed spells_repeat (by decide) (hc.prints st fun l hl => hw l (by simp [hl]))
      (hb.prints fun l hl => hw l (by simp [hl])) .repeatLoop
  | .ifThenElse hc hb hb', hw => by
    rw [PrintStyle.stmtText_ifThenElse]
    exact printsLine_ifThenElse (hc.prints st fun l hl => hw l (by simp [hl]))
      (hb.prints fun l hl => hw l (by simp [hl])) (hb'.prints fun l hl => hw l (by simp [hl]))
  | .call ha, hw => by
    simp only [PrintStyle.stmtText, PrintStyle.use_none]
    exact printsLine_call (hw _ (by simp)).1 (ha.prints st fun l hl => hw l (by simp [hl]))
  | .retNone, _ => by
    simp only [PrintStyle.stmtText]
    exact printsLine_return
  | .retSome hv, hw => by
    simp only [PrintStyle.stmtText]
    exact printsLine_returnValue (hv.prints st fun l hl => hw l (by simp [hl]))

theorem StmtsOf.prints {w : List Lexeme} {ss : List Stmt} :
    StmtsOf parens w ss → (∀ l ∈ w, Lexeme.Reprintable l) →
      LinesOf (StmtsOf parens · ss) (String.join (ss.map fun s => "\n" ++ st.indented (st.stmtText s))).toList
  | .nil, _ => linesOf_nil .nil
  | .cons h hs, hw => by
    simp only [List.map_cons, String.join_cons, String.toList_append, List.append_assoc]
    exact LinesOf.cons ((h.prints fun l hl => hw l (by simp [hl])).indented st)
      (hs.prints fun l hl => hw l (by simp [hl])) fun _ _ => .cons

theorem BlockOf.prints {w : List Lexeme} {ds : List VarDecl} {ss : List Stmt} :
    BlockOf parens w ds ss → (∀ l ∈ w, Lexeme.Reprintable l) →
      PrintsLine (BlockOf parens · ds ss) ("\x7b" ++ st.bodyText ds ss).toList
  | .mk hds hss, hw => by
    simp only [PrintStyle.bodyText, String.toList_append, List.append_assoc]
    exact printsLine_block (hds.prints st fun l hl => (hw l (by simp [hl])).1)
      (hss.prints fun l hl => hw l (by simp [hl]))

end

/-! ## Declarations and programs -/

theorem ParamOf.prints {w : List Lexeme} {p : Param} (h : ParamOf w p) (hw : ∀ l ∈ w, Lexeme.WellFormed l) :
    ∃ w', ParamOf w' p ∧ (∀ f, EndsWord f → Spells (p.type.name ++ " " ++ p.name.name).toList w' f) ∧
      onlyLineFeeds (p.type.name ++ " " ++ p.name.name).toList = true := by
  cases h with
  | @mk a ty n s s' hb =>
    obtain ⟨a', hb', hsp, hlf⟩ := hb.prints
    obtain ⟨hn, -, hnlf⟩ := spells_name (hw (.ident, n) (by simp))
    simp only [hb.name_eq, String.toList_append, List.append_assoc]
    exact ⟨_, .mk hb', fun f hf => hsp.append ((spells_blank rfl).append (hn f hf)),
      by simp [Text.isLineBreak, hlf, hnlf]⟩

theorem MoreParamsOf.prints {w : List Lexeme} {ps : List Param} (h : MoreParamsOf w ps)
    (hw : ∀ l ∈ w, Lexeme.WellFormed l) :
    ∃ w', MoreParamsOf w' ps ∧
      Spells (String.join (ps.map fun p => ", " ++ (p.type.name ++ " " ++ p.name.name))).toList w' (some ')') ∧
      ∀ c ∈ (String.join (ps.map fun p => ", " ++ (p.type.name ++ " " ++ p.name.name))).toList.head?, c = ',' := by
  induction h with
  | nil => exact ⟨[], .nil, Spells.nil, by simp⟩
  | @comma w₁ w₂ p ps x hp _ ih =>
    obtain ⟨w₁', hp', hsp, -⟩ := hp.prints fun l hl => hw l (by simp [hl])
    obtain ⟨w₂', hps', hsp', hhead⟩ := ih fun l hl => hw l (by simp [hl])
    have hd : MoreParamsOf ((.comma, ",") :: w₁' ++ w₂') (p :: ps) := .comma hp' hps'
    simp only [List.cons_append] at hd
    have hsp'' := spells_comma.append ((hsp _ (endsWord_comma_or_rparen hhead)).append hsp')
    simp only [String.toList_append, List.append_assoc] at hsp''
    simp only [List.map_cons, String.join_cons, String.toList_append, List.append_assoc]
    exact ⟨_, hd, hsp'', by simp⟩

theorem ParamsOf.prints {w : List Lexeme} {ps : List Param} (h : ParamsOf w ps)
    (hw : ∀ l ∈ w, Lexeme.WellFormed l) :
    ∃ w', ParamsOf w' ps ∧
      Spells (", ".intercalate (ps.map fun p => p.type.name ++ " " ++ p.name.name)).toList w' (Option.some ')') := by
  cases h with
  | none => exact ⟨[], .none, Spells.nil⟩
  | @some w₁ w₂ p ps hp hps =>
    obtain ⟨w₁', hp', hsp, -⟩ := hp.prints fun l hl => hw l (by simp [hl])
    obtain ⟨w₂', hps', hsp', hhead⟩ := hps.prints fun l hl => hw l (by simp [hl])
    have hsp'' := (hsp _ (endsWord_comma_or_rparen hhead)).append hsp'
    simp only [String.toList_append, List.append_assoc] at hsp''
    rw [List.map_cons, intercalate_cons_eq_join, List.map_map]
    simp only [Function.comp_def, String.toList_append, List.append_assoc]
    exact ⟨_, .some hp' hps', hsp''⟩

variable {parens : Bool}

theorem DeclOf.prints {w : List Lexeme} {d : Decl} (h : DeclOf parens w d)
    (hw : ∀ l ∈ w, Lexeme.Reprintable l) :
    ∃ w', DeclOf parens w' d ∧ Spells (st.declText d).toList w' (some '\n') := by
  cases h with
  | var hv =>
    obtain ⟨⟨⟨w', hv', hsp⟩, -⟩, -⟩ := hv.prints st fun l hl => (hw l hl).1
    exact ⟨w', .var hv', hsp⟩
  | @fn a w₁ w₂ ty ps ds ss n x y s s' s'' hb hps hblk =>
    obtain ⟨a', hb', hspt, -⟩ := hb.prints
    obtain ⟨hn, -, -⟩ := spells_name (hw (.ident, n) (by simp)).1
    obtain ⟨wp, hps', hspp⟩ := hps.prints fun l hl => (hw l (by simp [hl])).1
    obtain ⟨⟨⟨wb, hblk', hspb⟩, -⟩, -⟩ := hblk.prints st fun l hl => hw l (by simp [hl])
    have hd : DeclOf parens (a' :: (.ident, n) :: (.lparen, "(") :: wp ++ (.rparen, ")") :: wb)
        (.fn ⟨ty, ⟨n, s, none⟩, ps, ds, ss, s', s''⟩) := .fn hb' hps' hblk'
    simp only [List.cons_append] at hd
    have htext : (st.declText (.fn ⟨ty, ⟨n, s, none⟩, ps, ds, ss, s', s''⟩)).toList =
        ty.text.toList ++ (" ".toList ++ (n.toList ++ ("(".toList ++
          ((", ".intercalate (ps.map fun p => p.type.name ++ " " ++ p.name.name)).toList ++
          (") ".toList ++ (("\x7b" ++ st.bodyText ds ss).toList ++ "\n".toList)))))) := by
      simp [PrintStyle.declText, PrintStyle.fnText_eq, hb.name_eq, String.toList_append]
    rw [htext]
    have hsp := hspt.append ((spells_blank rfl).append ((hn _ (endsWord_some rfl)).append
      ((spells_punct (c := '(') (by decide) rfl).append (hspp.append (spells_rparen_space.append
        (hspb.append (spells_blank (c := '\n') (f := some '\n') rfl)))))))
    rw [List.append_nil] at hsp
    exact ⟨_, hd, hsp⟩
  | @struct w₁ w₂ d ds a n b c e s s' hd hds =>
    obtain ⟨hn, -, -⟩ := spells_name (hw (.ident, n) (by simp)).1
    have hfields := LinesOf.cons (R := fun W => ∃ w w', W = w ++ w' ∧ VarDeclOf w d ∧ VarDeclsOf w' ds)
      ((hd.prints st fun l hl => (hw l (by simp [hl])).1).indented st)
      (hds.prints st fun l hl => (hw l (by simp [hl])).1) fun w w' h h' => ⟨w, w', rfl, h, h'⟩
    obtain ⟨⟨⟨W, ⟨w, w', rfl, hd', hds'⟩, hspf⟩, -⟩, -⟩ := hfields
    have hdecl : DeclOf parens ((.kwStruct, "struct") :: (.ident, n) :: (.lcurly, "\x7b") :: w ++ w' ++
        [(.rcurly, "\x7d"), (.semicolon, ";")]) (.struct ⟨⟨n, s, none⟩, d :: ds, s'⟩) := .struct hd' hds'
    simp only [List.cons_append, List.append_assoc] at hdecl
    have htext : (st.declText (.struct ⟨⟨n, s, none⟩, d :: ds, s'⟩)).toList =
        "struct ".toList ++ (n.toList ++ (" \x7b".toList ++ ("\n".toList ++
          ((st.indented (st.varDeclText d)).toList ++
          ((String.join (ds.map fun f => "\n" ++ st.indented (st.varDeclText f))).toList ++
          ("\n\x7d;".toList ++ "\n".toList)))))) := by
      simp [PrintStyle.declText, PrintStyle.structText_eq, String.toList_append]
    rw [htext]
    have hsp := spells_struct.append ((hn _ (endsWord_some rfl)).append (spells_open_body.append
      (hspf.append (spells_close_struct.append (spells_blank (c := '\n') (f := some '\n') rfl)))))
    simp only [List.append_assoc, List.append_nil] at hsp
    exact ⟨_, hdecl, hsp⟩

theorem DeclsOf.prints {w : List Lexeme} {ds : List Decl} (h : DeclsOf parens w ds)
    (hw : ∀ l ∈ w, Lexeme.Reprintable l) :
    ∃ w', DeclsOf parens w' ds ∧ ∀ f, Spells (String.join (ds.map fun d => st.declText d ++ "\n")).toList w' f := by
  induction h with
  | nil => exact ⟨[], .nil, fun _ => Spells.nil⟩
  | cons hd _ ih =>
    obtain ⟨w₁, hd', hsp⟩ := hd.prints st fun l hl => hw l (by simp [hl])
    obtain ⟨w₂, hds', hsp'⟩ := ih fun l hl => hw l (by simp [hl])
    simp only [List.map_cons, String.join_cons, String.toList_append, List.append_assoc]
    exact ⟨_, .cons hd' hds', fun f => hsp.append ((spells_blank rfl).append (hsp' f))⟩

/-- **A derived program's text reads back.** The printed text of a program
derived from reprintable lexemes scans, with no issue, to a word from which the
grammar derives the same program. -/
theorem ProgramOf.prints {w : List Lexeme} {p : Program} (h : ProgramOf parens w p)
    (hw : ∀ l ∈ w, Lexeme.Reprintable l) :
    ∃ w', ProgramOf parens w' p ∧ textLexemes (p.print st).toList = w' ∧ textIssues (p.print st).toList = [] := by
  cases h with
  | mk hds =>
    obtain ⟨w', hds', hsp⟩ := hds.prints st hw
    rw [PrintStyle.print_eq_join]
    exact ⟨w', .mk hds', (hsp none).at_end⟩

end Grammar

end EggFront
