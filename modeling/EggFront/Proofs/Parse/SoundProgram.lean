import EggFront.Proofs.Parse.SoundStmt

/-!
# Programs the parser reads are programs of the grammar

The declarations of a program, read after their first token as the parser does,
spell declarations of the grammar; the loop over them, when it ends with no
error, has read a program of the grammar from all the tokens
(`Program.parse_sound`). The grammar is the one with targets in parentheses
allowed: the parser reads `(x) = 1` as `x = 1`.
-/

namespace EggFront

open Grammar

variable {eof t : Token}

/-! ## Functions -/

theorem parseType_sound {ts rest : List Token} {ty : TypeExpr}
    (h : (parseType eof ts).Yields ty rest) : ∃ t, ts = t :: rest ∧ BaseTypeOf (t.kind, t.text) ty := by
  cases ts with
  | nil => exact absurd h Reading.fail_yields
  | cons t r =>
    rw [parseType] at h
    split at h
    · rename_i hty
      obtain ⟨rfl, rfl⟩ := Reading.ok_yields.1 h
      exact ⟨t, rfl, BaseTypeOf.of_baseType hty⟩
    · exact absurd h Reading.fail_yields

theorem parseParam_sound (heof : eof.kind = .eof) {ts rest : List Token} {p : Param}
    (h : (parseParam eof ts).Yields p rest) : ∃ c, ts = c ++ rest ∧ ParamOf (lexemes c) p := by
  obtain ⟨ty, s, -, hty, hk⟩ := h.of_andThen
  obtain ⟨n, hn, rfl⟩ := (Reading.map_yields _ _).1 hk
  obtain ⟨t, hs, hw⟩ := parseType_sound hty
  obtain ⟨u, hs', huk, rfl⟩ := expectIdent_yields heof hn
  refine ⟨[t, u], by rw [hs, hs']; rfl, ?_⟩
  have hp : ParamOf [(t.kind, t.text), (.ident, u.text)]
      ⟨ty, ⟨u.text, u.span, none⟩, ty.span.through u.span⟩ := .mk hw
  simpa [huk] using hp

theorem paramsRest_sound (heof : eof.kind = .eof) {acc ps : List Param} {ts rest : List Token}
    (h : (paramsRest eof acc ts).Yields ps rest) :
    ∃ c rp more, ts = c ++ rp :: rest ∧ rp.kind = .rparen ∧ ps = acc ++ more ∧
      MoreParamsOf (lexemes c) more := by
  fun_induction paramsRest eof acc ts with
  | case1 acc t r hk ih =>
    rw [Reading.after_yields] at h
    obtain ⟨p, s, hsuf, hp, hk'⟩ := h.of_andThen
    obtain ⟨c₁, hr, hw⟩ := parseParam_sound heof hp
    obtain ⟨c₂, rp, more, hs, hrp, rfl, hm⟩ := ih p s hsuf hk'
    refine ⟨t :: c₁ ++ c₂, rp, p :: more, by rw [hr, hs]; simp, hrp, by simp, ?_⟩
    simpa [hk] using MoreParamsOf.comma (x := t.text) hw hm
  | case2 acc t r hk =>
    obtain ⟨rp, hrp, rfl⟩ := (Reading.map_yields _ _).1 h
    obtain ⟨hr, hk⟩ := expect_yields heof hrp (by decide)
    exact ⟨[], rp, [], by rw [hr]; rfl, hk, by simp, .nil⟩
  | case3 acc =>
    obtain ⟨rp, hrp, -⟩ := (Reading.map_yields _ _).1 h
    obtain ⟨hr, -⟩ := expect_yields heof hrp (by decide)
    cases hr

theorem parseParams_sound (heof : eof.kind = .eof) {ts rest : List Token} {ps : List Param}
    (h : (parseParams eof ts).Yields ps rest) :
    ∃ lp c rp, ts = lp :: c ++ rp :: rest ∧ lp.kind = .lparen ∧ rp.kind = .rparen ∧
      ParamsOf (lexemes c) ps := by
  obtain ⟨lp, s, -, hlp, hk⟩ := h.of_andThen
  obtain ⟨hs, hlpk⟩ := expect_yields heof hlp (by decide)
  split at hk
  · obtain ⟨rp, hrp, rfl⟩ := (Reading.map_yields _ _).1 hk
    obtain ⟨hs', hrpk⟩ := expect_yields heof hrp (by decide)
    exact ⟨lp, [], rp, by rw [hs, hs']; rfl, hlpk, hrpk, .none⟩
  · obtain ⟨p, s', -, hp, hk'⟩ := hk.of_andThen
    obtain ⟨c₁, hs', hw⟩ := parseParam_sound heof hp
    obtain ⟨c₂, rp, more, hs'', hrpk, rfl, hm⟩ := paramsRest_sound heof hk'
    refine ⟨lp, c₁ ++ c₂, rp, by rw [hs, hs', hs'']; simp, hlpk, hrpk, ?_⟩
    simpa using ParamsOf.some hw hm

theorem parseFnDecl_sound (heof : eof.kind = .eof) {ty : TypeExpr} (hty : baseType? t = some ty)
    {r rest : List Token} {f : FnDecl} (h : (parseFnDecl eof ty r).Yields f rest) :
    ∃ c, r = c ++ rest ∧ DeclOf true (lexemes (t :: c)) (.fn f) := by
  obtain ⟨n, s, -, hn, hk⟩ := h.of_andThen
  obtain ⟨ps, s', -, hps, hk'⟩ := hk.of_andThen
  obtain ⟨b, hb, rfl⟩ := (Reading.map_yields _ _).1 hk'
  obtain ⟨u, hs, huk, rfl⟩ := expectIdent_yields heof hn
  obtain ⟨lp, c, rp, hs', hlp, hrp, hw⟩ := parseParams_sound heof hps
  obtain ⟨c', hs'', hbw⟩ := parseBlock_sound heof hb
  refine ⟨u :: lp :: c ++ rp :: c', by rw [hs, hs', hs'']; simp, ?_⟩
  have hfn : DeclOf true ((t.kind, t.text) :: (.ident, u.text) :: (.lparen, lp.text) :: lexemes c ++
      (.rparen, rp.text) :: lexemes c')
      (.fn ⟨ty, ⟨u.text, u.span, none⟩, ps, b.decls, b.stmts, b.span, ty.span.through b.span⟩) :=
    .fn (BaseTypeOf.of_baseType hty) hw hbw
  simpa [huk, hlp, hrp] using hfn

/-! ## Structs -/

theorem fieldLoop_sound (heof : eof.kind = .eof) {acc ds : List VarDecl} {ts rest : List Token}
    (h : (fieldLoop eof acc ts).Yields ds rest) :
    ∃ c more, ts = c ++ rest ∧ ds = acc ++ more ∧ VarDeclsOf (lexemes c) more := by
  fun_induction fieldLoop eof acc ts with
  | case1 acc t r st hst ih =>
    rw [Reading.after_yields] at h
    obtain ⟨d, s, hsuf, hd, hk⟩ := h.of_andThen
    obtain ⟨c₁, hr, hw⟩ := parseVarDecl_sound heof hst hd
    obtain ⟨c₂, more, hs, rfl, hm⟩ := ih d s hsuf hk
    refine ⟨t :: c₁ ++ c₂, d :: more, by rw [hr, hs]; simp, by simp, ?_⟩
    simpa using VarDeclsOf.cons hw hm
  | case2 | case3 =>
    obtain ⟨rfl, rfl⟩ := Reading.ok_yields.1 h
    exact ⟨[], [], rfl, by simp, .nil⟩

/-- No declaration starts with the end marker. -/
theorem declStart_eof (heof : eof.kind = .eof) : declStart? eof = none := by
  simp [declStart?, baseType?, heof]

theorem parseStructDecl_sound (heof : eof.kind = .eof) (hk : t.kind = .kwStruct)
    {r rest : List Token} {sd : StructDecl} (h : (parseStructDecl eof t r).Yields sd rest) :
    ∃ c, r = c ++ rest ∧ DeclOf true (lexemes (t :: c)) (.struct sd) := by
  obtain ⟨n, s, -, hn, hk₁⟩ := h.of_andThen
  obtain ⟨lc, s', -, hlc, hk₂⟩ := hk₁.of_andThen
  simp only [Reading.note_yields] at hk₂
  obtain ⟨hempty, hk₃⟩ := hk₂
  -- a clean reading reports no empty struct: a field starts after the brace
  have hstart : (declStart? (current eof s')).isSome := by
    split at hempty
    · assumption
    · cases hempty
  obtain ⟨u, hs, huk, rfl⟩ := expectIdent_yields heof hn
  obtain ⟨hs', hlck⟩ := expect_yields heof hlc (by decide)
  cases s' with
  | nil => simp [current, declStart_eof heof] at hstart
  | cons f s'' =>
    obtain ⟨st, hst⟩ := Option.isSome_iff_exists.1 hstart
    simp only [current, List.headD_cons] at hst
    obtain ⟨fields, s₃, -, hfl, hk₄⟩ := hk₃.of_andThen
    rw [fieldLoop] at hfl
    simp only [hst, Reading.after_yields] at hfl
    obtain ⟨d, s₄, -, hd, hfl'⟩ := hfl.of_andThen
    obtain ⟨c₁, hs₄, hdw⟩ := parseVarDecl_sound heof hst hd
    obtain ⟨c₂, more, hs₃, rfl, hm⟩ := fieldLoop_sound heof hfl'
    obtain ⟨rc, s₅, -, hrc, hk₅⟩ := hk₄.of_andThen
    obtain ⟨semi, hsemi, rfl⟩ := (Reading.map_yields _ _).1 hk₅
    obtain ⟨hs₅, hrck⟩ := expect_yields heof hrc (by decide)
    obtain ⟨hs₆, hsk⟩ := expect_yields heof hsemi (by decide)
    refine ⟨u :: lc :: f :: c₁ ++ c₂ ++ [rc, semi], by rw [hs, hs', hs₄, hs₃, hs₅, hs₆]; simp, ?_⟩
    have hstruct : DeclOf true ((.kwStruct, t.text) :: (.ident, u.text) :: (.lcurly, lc.text) ::
        lexemes (f :: c₁) ++ lexemes c₂ ++ [(.rcurly, rc.text), (.semicolon, semi.text)])
        (.struct ⟨⟨u.text, u.span, none⟩, d :: more, t.span.through semi.span⟩) :=
      .struct hdw hm
    simpa [hk, huk, hlck, hrck, hsk] using hstruct

/-! ## Programs -/

theorem parseDecl_sound (heof : eof.kind = .eof) {r rest : List Token} {rd : Reading r Decl}
    {d : Decl} (hrd : parseDecl eof t r = .ok rd) (h : rd.Yields d rest) :
    ∃ c, r = c ++ rest ∧ DeclOf true (lexemes (t :: c)) d := by
  unfold parseDecl at hrd
  split at hrd
  · rename_i hk
    split at hrd
    · cases hrd
      obtain ⟨sd, hsd, rfl⟩ := (Reading.map_yields _ _).1 h
      exact parseStructDecl_sound heof hk hsd
    · cases hrd
      obtain ⟨vd, hvd, rfl⟩ := (Reading.map_yields _ _).1 h
      obtain ⟨c, hr, hw⟩ := parseVarDecl_sound heof (t := t) (by simp [declStart?, hk]) hvd
      exact ⟨c, hr, .var hw⟩
  · rename_i hk
    split at hrd
    · rename_i ty hty
      split at hrd
      · cases hrd
        obtain ⟨f, hf, rfl⟩ := (Reading.map_yields _ _).1 h
        exact parseFnDecl_sound heof hty hf
      · cases hrd
        obtain ⟨vd, hvd, rfl⟩ := (Reading.map_yields _ _).1 h
        obtain ⟨c, hr, hw⟩ := parseVarDecl_sound heof (t := t) (by simp [declStart?, hk, hty]) hvd
        exact ⟨c, hr, .var hw⟩
    · cases hrd

theorem declLoop_sound (heof : eof.kind = .eof) {acc ds : List Decl} {errs : List SyntaxError}
    {ts : List Token} (h : declLoop eof acc errs ts = (ds, [])) :
    errs = [] ∧ ∃ more, ds = acc ++ more ∧ DeclsOf true (lexemes ts) more := by
  fun_induction declLoop eof acc errs ts with
  | case1 acc errs =>
    simp only [Prod.mk.injEq] at h
    obtain ⟨rfl, rfl⟩ := h
    exact ⟨rfl, [], by simp, .nil⟩
  | case2 acc errs t r _ e _ ih =>
    -- an error once recorded is never dropped
    have hnil := (ih h).1
    simp at hnil
  | case3 acc errs t r _ d s es hs hpd ih =>
    obtain ⟨hnil, more, rfl, hm⟩ := ih h
    obtain ⟨rfl, rfl⟩ := List.append_eq_nil_iff.1 hnil
    obtain ⟨c, hr, hw⟩ := parseDecl_sound heof hpd ⟨rfl, rfl, rfl⟩
    refine ⟨rfl, d :: more, by simp, ?_⟩
    rw [hr, ← List.cons_append, lexemes_append]
    exact .cons hw hm
  | case4 acc errs t r _ e s es hs hpd ih =>
    have hnil := (ih h).1
    simp at hnil

/-- **Soundness of the parser.** A program the parser reads from the tokens
before an end is a program of the grammar, with targets in parentheses allowed,
that the tokens spell. -/
theorem Program.parseBefore_sound (heof : eof.kind = .eof) {ts : List Token} {p : Program}
    (h : Program.parseBefore ts eof = .ok p) : ProgramOf true (lexemes ts) p := by
  unfold Program.parseBefore at h
  split at h
  · rename_i ds hloop
    cases h
    obtain ⟨-, more, rfl, hw⟩ := declLoop_sound heof hloop
    exact .mk hw
  · cases h

/-- So is the program read from tokens with no end marker among them, such as a
scan gives. -/
theorem Program.parse_sound (heof : eof.kind = .eof) {ts : List Token} {p : Program}
    (hts : ∀ t ∈ ts, t.kind ≠ .eof) (h : Program.parse ts eof = .ok p) : ProgramOf true (lexemes ts) p :=
  Program.parseBefore_sound heof (by rwa [Program.parse_of_unmarked hts] at h)

end EggFront
