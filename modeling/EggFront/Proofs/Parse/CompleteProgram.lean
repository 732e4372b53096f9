import EggFront.Proofs.Parse.CompleteStmt
import EggFront.Proofs.Token.Scanned

/-!
# The parser accepts exactly its grammar

The last layer of completeness: functions, declarations and whole programs of
the grammar are read by the parser, into trees equal to the grammar's up to
spans. With `Program.parse_sound` it gives the parser's specification over what
the scanner produces (`Program.parse_accepts_grammar`): parsing succeeds on
exactly the words of the grammar, and its answer is the grammar's tree for
them, which is unique up to spans.

The grammar here allows an assignment's target in parentheses, as the parser
does: an assignment takes any expression that reads back to a location, so
`(x) = 1` is accepted.
-/

namespace EggFront

open Grammar

variable {eof t : Token}

/-! ## Functions -/

theorem Grammar.ParamOf.complete {w : List Lexeme} {p : Param} (h : ParamOf w p) {c : List Token}
    (hc : lexemes c = w) :
    ∃ p', p'.erase = p.erase ∧ ∀ eof rest, (parseParam eof (c ++ rest)).Yields p' rest := by
  cases h with
  | mk ha =>
    obtain ⟨a, c₁, rfl, hk, -, hc₁⟩ := lexemes_eq_cons hc
    obtain ⟨n, c₂, rfl, hnk, hnx, hc₂⟩ := lexemes_eq_cons hc₁
    obtain rfl := lexemes_eq_nil hc₂
    obtain ⟨ty', hty, htye⟩ := ha.baseType hk
    refine ⟨⟨ty', ⟨n.text, n.span, none⟩, ty'.span.through n.span⟩,
      by simp [Param.erase, Ident.erase, htye, hnx], fun eof rest => ?_⟩
    have htype : (parseType eof (a :: n :: rest)).Yields ty' (n :: rest) := by
      rw [parseType]
      simp only [hty, Reading.after_yields]
      exact Reading.ok_yields.2 ⟨rfl, rfl⟩
    refine Reading.andThen_yields_of htype fun _ => ?_
    exact (Reading.map_yields _ _).2 ⟨_, expectIdent_yields_of rest hnk, rfl⟩

theorem Grammar.MoreParamsOf.complete {w : List Lexeme} {ps : List Param} (h : MoreParamsOf w ps)
    {c : List Token} (hc : lexemes c = w) :
    ∃ ps', ps'.map Param.erase = ps.map Param.erase ∧ ∀ eof rest rp acc, rp.kind = .rparen →
      (paramsRest eof acc (c ++ rp :: rest)).Yields (acc ++ ps') rest := by
  induction h generalizing c with
  | nil =>
    obtain rfl := lexemes_eq_nil hc
    refine ⟨[], rfl, fun eof rest rp acc hrp => ?_⟩
    rw [List.nil_append, paramsRest]
    simp only [hrp, reduceCtorEq, if_false]
    rw [List.append_nil]
    exact expect_map_yields_of rest hrp
  | comma hp _ ih =>
    obtain ⟨cm, c₁, rfl, hcm, -, hc₁⟩ := lexemes_eq_cons hc
    obtain ⟨c₂, c₃, rfl, hc₂, hc₃⟩ := lexemes_eq_append hc₁
    obtain ⟨p', hpe, hpy⟩ := hp.complete hc₂
    obtain ⟨ps', hpse, hpsy⟩ := ih hc₃
    refine ⟨p' :: ps', by simp [hpe, hpse], fun eof rest rp acc hrp => ?_⟩
    rw [show cm :: (c₂ ++ c₃) ++ rp :: rest = cm :: (c₂ ++ (c₃ ++ rp :: rest)) by simp, paramsRest]
    simp only [hcm, if_true, Reading.after_yields]
    refine Reading.andThen_yields_of (hpy eof _) fun _ => ?_
    simpa using hpsy eof rest rp (acc ++ [p']) hrp

theorem Grammar.ParamsOf.complete {w : List Lexeme} {ps : List Param} (h : ParamsOf w ps)
    {c : List Token} (hc : lexemes c = w) :
    ∃ ps', ps'.map Param.erase = ps.map Param.erase ∧ ∀ eof rest lp rp, lp.kind = .lparen →
      rp.kind = .rparen → (parseParams eof (lp :: c ++ rp :: rest)).Yields ps' rest := by
  cases h with
  | none =>
    obtain rfl := lexemes_eq_nil hc
    refine ⟨[], rfl, fun eof rest lp rp hlp hrp => ?_⟩
    unfold parseParams
    refine Reading.andThen_yields_of (expect_yields_of _ hlp) fun _ => ?_
    rw [if_pos (by simpa [current] using hrp)]
    exact expect_map_yields_of rest hrp
  | some hp hm =>
    obtain ⟨c₁, c₂, rfl, hc₁, hc₂⟩ := lexemes_eq_append hc
    obtain ⟨p', hpe, hpy⟩ := hp.complete hc₁
    obtain ⟨ps', hpse, hpsy⟩ := hm.complete hc₂
    refine ⟨p' :: ps', by simp [hpe, hpse], fun eof rest lp rp hlp hrp => ?_⟩
    -- the first parameter starts with its type, not `)`
    have hcur : (current eof (c₁ ++ (c₂ ++ rp :: rest))).kind ≠ .rparen := by
      cases hp with
      | mk ha =>
        obtain ⟨a, c₁', rfl, hk, -, -⟩ := lexemes_eq_cons hc₁
        simp only [current, List.cons_append, List.headD_cons, hk]
        cases ha <;> simp
    rw [show lp :: (c₁ ++ c₂) ++ rp :: rest = lp :: (c₁ ++ (c₂ ++ rp :: rest)) by simp]
    unfold parseParams
    refine Reading.andThen_yields_of (expect_yields_of _ hlp) fun _ => ?_
    rw [if_neg hcur]
    refine Reading.andThen_yields_of (hpy eof _) fun _ => ?_
    simpa using hpsy eof rest rp [p'] hrp

/-! ## Declarations -/

theorem Grammar.DeclOf.complete {w : List Lexeme} {d : Decl} (h : DeclOf true w d) {c : List Token}
    (hc : lexemes c = w) :
    ∃ t c', c = t :: c' ∧ ∃ d', d'.erase = d.erase ∧
      ∀ eof rest, ∃ rd, parseDecl eof t (c' ++ rest) = .ok rd ∧ rd.Yields d' rest := by
  cases h with
  | var hv =>
    obtain ⟨t, c', st, rfl, hst, d', hde, hy⟩ := hv.complete hc
    refine ⟨t, c', rfl, .var d', by simp [Decl.erase, hde], fun eof rest => ?_⟩
    -- the second token after the type is the name's successor: a name or `;`, never `{` or `(`
    cases hv with
    | base ha =>
      obtain ⟨t', c₁, ht', hk, -, hc₁⟩ := lexemes_eq_cons hc
      obtain ⟨rfl, rfl⟩ := List.cons.inj ht'
      obtain ⟨n, c₂, rfl, -, -, hc₂⟩ := lexemes_eq_cons hc₁
      obtain ⟨semi, c₃, rfl, hsk, -, hc₃⟩ := lexemes_eq_cons hc₂
      obtain rfl := lexemes_eq_nil hc₃
      obtain ⟨ty', hty, -⟩ := ha.baseType hk
      have hns : t.kind ≠ .kwStruct := by
        intro hs
        simp [baseType?, hs] at hty
      have hst' : st = .base ty' := by
        simp only [declStart?, hns, if_false, hty, Option.map_some, Option.some.injEq] at hst
        exact hst.symm
      subst hst'
      refine ⟨_, ?_, (Reading.map_yields _ _).2 ⟨d', hy eof rest, rfl⟩⟩
      unfold parseDecl
      simp [hns, hty, ahead, hsk]
    | struct =>
      obtain ⟨t', c₁, ht', hk, -, hc₁⟩ := lexemes_eq_cons hc
      obtain ⟨rfl, rfl⟩ := List.cons.inj ht'
      obtain ⟨tn, c₂, rfl, -, -, hc₂⟩ := lexemes_eq_cons hc₁
      obtain ⟨n, c₃, rfl, hnk, -, hc₃⟩ := lexemes_eq_cons hc₂
      have hst' : st = .struct t := by
        simp only [declStart?, hk, if_true, Option.some.injEq] at hst
        exact hst.symm
      subst hst'
      refine ⟨_, ?_, (Reading.map_yields _ _).2 ⟨d', hy eof rest, rfl⟩⟩
      unfold parseDecl
      simp [hk, ahead, hnk]
  | fn ha hps hb =>
    obtain ⟨a, c₁, rfl, hk, -, hc₁⟩ := lexemes_eq_cons hc
    obtain ⟨n, c₂, rfl, hnk, hnx, hc₂⟩ := lexemes_eq_cons hc₁
    obtain ⟨lp, c₃, rfl, hlp, -, hc₃⟩ := lexemes_eq_cons hc₂
    obtain ⟨cp, cR, rfl, hcp, hcR⟩ := lexemes_eq_append hc₃
    obtain ⟨rp, cb, rfl, hrp, -, hcb⟩ := lexemes_eq_cons hcR
    obtain ⟨ty', hty, htye⟩ := ha.baseType hk
    obtain ⟨ps', hpse, hpsy⟩ := hps.complete hcp
    obtain ⟨b, hbd, hbs, hby⟩ := hb.complete hcb
    refine ⟨a, n :: lp :: cp ++ rp :: cb, by simp,
      .fn ⟨ty', ⟨n.text, n.span, none⟩, ps', b.decls, b.stmts, b.span, ty'.span.through b.span⟩,
      by simp [Decl.erase, FnDecl.erase, Ident.erase, htye, hnx, hpse, hbd, hbs], fun eof rest => ?_⟩
    have hns : a.kind ≠ .kwStruct := by
      intro hs
      simp [baseType?, hs] at hty
    refine ⟨(parseFnDecl eof ty' _).map .fn, ?_, (Reading.map_yields _ _).2 ⟨_, ?_, rfl⟩⟩
    · unfold parseDecl
      simp [hns, hty, ahead, hlp]
    · rw [show n :: lp :: cp ++ rp :: cb ++ rest = n :: (lp :: cp ++ rp :: (cb ++ rest)) by simp]
      unfold parseFnDecl
      refine Reading.andThen_yields_of (expectIdent_yields_of _ hnk) fun _ => ?_
      refine Reading.andThen_yields_of (hpsy eof _ lp rp hlp hrp) fun _ => ?_
      exact (Reading.map_yields _ _).2 ⟨b, hby eof rest, rfl⟩
  | struct hd hds =>
    obtain ⟨cA, cR, rfl, hcA, hcR⟩ := lexemes_eq_append hc
    obtain ⟨rc, c₀, rfl, hrc, -, hc₀⟩ := lexemes_eq_cons hcR
    obtain ⟨semi, c₀', rfl, hsk, -, hc₀'⟩ := lexemes_eq_cons hc₀
    obtain rfl := lexemes_eq_nil hc₀'
    obtain ⟨kw, c₁, rfl, hk, -, hc₁⟩ := lexemes_eq_cons hcA
    obtain ⟨n, c₂, rfl, hnk, hnx, hc₂⟩ := lexemes_eq_cons hc₁
    obtain ⟨lc, c₃, rfl, hlc, -, hc₃⟩ := lexemes_eq_cons hc₂
    obtain ⟨fs', hfse, hfy⟩ := (VarDeclsOf.cons hd hds).complete hc₃
    refine ⟨kw, n :: lc :: c₃ ++ [rc, semi], by simp,
      .struct ⟨⟨n.text, n.span, none⟩, fs', kw.span.through semi.span⟩,
      by simp [Decl.erase, StructDecl.erase, Ident.erase, hnx, hfse], fun eof rest => ?_⟩
    refine ⟨(parseStructDecl eof kw _).map .struct, ?_, (Reading.map_yields _ _).2 ⟨_, ?_, rfl⟩⟩
    · unfold parseDecl
      simp [hk, ahead, hlc]
    -- a struct of the grammar has a field, so no empty struct is reported
    obtain ⟨cd, cds, rfl, hcd, -⟩ := lexemes_eq_append hc₃
    obtain ⟨f, cd', st, rfl, hst, -⟩ := hd.complete hcd
    rw [show n :: lc :: (f :: cd' ++ cds) ++ [rc, semi] ++ rest =
      n :: lc :: (f :: cd' ++ cds ++ rc :: semi :: rest) by simp]
    unfold parseStructDecl
    refine Reading.andThen_yields_of (expectIdent_yields_of _ hnk) fun _ => ?_
    refine Reading.andThen_yields_of (expect_yields_of _ hlc) fun _ => ?_
    simp only [Reading.note_yields]
    refine ⟨by simp [current, hst], ?_⟩
    have hfields := (hfy eof (rc :: semi :: rest) [] (by simp [EndsDecls, declStart?, baseType?, hrc])).2
    refine Reading.andThen_yields_of (by simpa using hfields) fun _ => ?_
    refine Reading.andThen_yields_of (expect_yields_of _ hrc) fun _ => ?_
    exact expect_map_yields_of rest hsk

/-! ## Programs -/

/-- A declaration read cleanly is added to the program, and the loop goes on after it. -/
theorem declLoop_cons_ok {eof t : Token} {acc : List Decl} {errs : List SyntaxError}
    {r s : List Token} {rd : Reading r Decl} {d : Decl} (hrd : parseDecl eof t r = .ok rd)
    (hy : rd.Yields d s) : declLoop eof acc errs (t :: r) = declLoop eof (acc ++ [d]) errs s := by
  obtain ⟨res, s', es, hsuf⟩ := rd
  obtain ⟨h1, h2, h3⟩ := hy
  simp only at h1 h2 h3
  subst h1 h2 h3
  rw [declLoop]
  simp only [hrd, List.append_nil]

theorem Grammar.DeclsOf.complete {w : List Lexeme} {ds : List Decl} (h : DeclsOf true w ds)
    {c : List Token} (hc : lexemes c = w) :
    ∃ ds', ds'.map Decl.erase = ds.map Decl.erase ∧
      ∀ eof acc errs, declLoop eof acc errs c = (acc ++ ds', errs) := by
  induction h generalizing c with
  | nil =>
    obtain rfl := lexemes_eq_nil hc
    exact ⟨[], rfl, fun eof acc errs => by rw [declLoop, List.append_nil]⟩
  | cons hd _ ih =>
    obtain ⟨c₁, c₂, rfl, hc₁, hc₂⟩ := lexemes_eq_append hc
    obtain ⟨t, c₁', rfl, d', hde, hy⟩ := hd.complete hc₁
    obtain ⟨ds', hdse, hys⟩ := ih hc₂
    refine ⟨d' :: ds', by simp [hde, hdse], fun eof acc errs => ?_⟩
    obtain ⟨rd, hrd, hyd⟩ := hy eof c₂
    rw [List.cons_append, declLoop_cons_ok hrd hyd, hys]
    simp

/-- **Completeness of the parser.** The tokens of a program of the grammar, with
targets in parentheses allowed, are parsed into a program equal to it up to
spans. -/
theorem Program.parse_complete {ts : List Token} {p : Program} (h : ProgramOf true (lexemes ts) p)
    (eof : Token) : ∃ p', Program.parse ts eof = .ok p' ∧ p'.erase = p.erase := by
  -- the tokens of a derivation hold no end marker, so all of them are read
  rw [Program.parse_of_unmarked (unmarked_lexemes.1 h.unmarked)]
  cases h with
  | mk hds =>
    obtain ⟨ds', hdse, hys⟩ := hds.complete rfl
    refine ⟨⟨ds', ⟨eof.span.file, 1, 1, eof.span.endLine, eof.span.endCol⟩⟩, ?_,
      by simp [Program.erase, hdse]⟩
    unfold Program.parseBefore
    rw [hys eof [] []]
    rfl

/-! ## Scanned text -/

/-- The scanner always ends its tokens with the end marker. -/
theorem scanFrom_eof_kind (file : String) (cs : List Char) (p : Position) :
    (scanFrom file cs p).eof.kind = .eof := by
  fun_induction scanFrom file cs p with
  | case1 => rfl
  | case2 p c r pc q s span ih => exact ih

/-- **The parser accepts exactly its grammar.** On the tokens of any text, parsing
succeeds exactly when their words are a program of the grammar; then the program
answered is one of the grammar's for them, and every other is equal to it up to
spans. -/
theorem Program.parse_accepts_grammar (file text : String) :
    ((∃ p, Program.parse (scan file text).tokens (scan file text).eof = .ok p) ↔
      ∃ q, ProgramOf true (lexemes (scan file text).tokens) q) ∧
    ∀ p, Program.parse (scan file text).tokens (scan file text).eof = .ok p →
      ProgramOf true (lexemes (scan file text).tokens) p ∧
      ∀ q, ProgramOf true (lexemes (scan file text).tokens) q → q.erase = p.erase := by
  have heof : (scan file text).eof.kind = .eof := scanFrom_eof_kind _ _ _
  have hts := scanFrom_unmarked file text.toList Position.first
  refine ⟨⟨fun ⟨p, hp⟩ => ⟨p, Program.parse_sound heof hts hp⟩, fun ⟨q, hq⟩ => ?_⟩,
    fun p hp => ⟨Program.parse_sound heof hts hp, fun q hq => ?_⟩⟩
  · obtain ⟨p', hp', -⟩ := Program.parse_complete hq (scan file text).eof
    exact ⟨p', hp'⟩
  -- the parser is a function, so the program it gives for a derivation is p itself
  · obtain ⟨p', hp', he⟩ := Program.parse_complete hq (scan file text).eof
    rw [hp, Except.ok.injEq] at hp'
    rw [← he, hp']

/-- A target in parentheses: the parser reads `cout << (x) = 1;`, which the grammar
without targets in parentheses has no word for, since there every `=` follows a
name. -/
theorem parse_reads_parenthesised_target :
    (∃ p, Program.parse (scan "main.egg" "int f() \x7b cout << (x) = 1; \x7d").tokens
      (scan "main.egg" "int f() \x7b cout << (x) = 1; \x7d").eof = .ok p) ∧
    ¬∃ q, ProgramOf false (lexemes (scan "main.egg" "int f() \x7b cout << (x) = 1; \x7d").tokens) q := by
  refine ⟨?_, fun ⟨q, hq⟩ => absurd hq.assignsFollowNames (by decide +kernel)⟩
  have hok : (Program.parse (scan "main.egg" "int f() \x7b cout << (x) = 1; \x7d").tokens
      (scan "main.egg" "int f() \x7b cout << (x) = 1; \x7d").eof).isOk = true := by
    decide +kernel
  cases hp : Program.parse (scan "main.egg" "int f() \x7b cout << (x) = 1; \x7d").tokens
      (scan "main.egg" "int f() \x7b cout << (x) = 1; \x7d").eof with
  | error e =>
    rw [hp] at hok
    cases hok
  | ok p => exact ⟨p, rfl⟩

end EggFront
