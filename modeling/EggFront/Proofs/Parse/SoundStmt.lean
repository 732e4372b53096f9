import EggFront.Proofs.Parse.SoundExpr

/-!
# Statements the parser reads are statements of the grammar

A clean reading of a declaration, a statement or a block reads tokens that
spell one of the grammar (`Grammar.VarDeclOf`, `Grammar.StmtOf`,
`Grammar.BlockOf`), denoting the tree it answers. A clean reading recovers from
nothing, so the loops that read declarations and statements took their
ordinary branch at every turn: a branch that skips a broken item leaves that
item's error behind, which a clean reading does not have.

Statements and blocks call one another, a block on the tokens after its
statement's first one and a statement on as many tokens as the loop that reads
it, so the three readers are handled together, by induction on the number of
tokens (`stmt_readers_sound`).
-/

namespace EggFront

open Grammar

variable {eof t : Token}

/-! ## Declarations of variables -/

theorem BaseTypeOf.of_baseType {ty : TypeExpr} (h : baseType? t = some ty) :
    BaseTypeOf (t.kind, t.text) ty := by
  unfold baseType? at h
  split at h <;> simp only [Option.some.injEq, reduceCtorEq] at h <;> subst h <;> rename_i hk <;> rw [hk]
  · exact .int
  · exact .bool
  · exact .void

theorem declStart_eq {st : DeclStart} (h : declStart? t = some st) :
    (t.kind = .kwStruct ∧ st = .struct t) ∨ ∃ ty, baseType? t = some ty ∧ st = .base ty := by
  unfold declStart? at h
  split at h
  · exact .inl ⟨by assumption, (Option.some.inj h).symm⟩
  · obtain ⟨ty, hty, rfl⟩ := Option.map_eq_some_iff.1 h
    exact .inr ⟨ty, hty, rfl⟩

theorem parseVarDecl_sound (heof : eof.kind = .eof) {st : DeclStart} {r rest : List Token}
    {d : VarDecl} (hst : declStart? t = some st) (h : (parseVarDecl eof st r).Yields d rest) :
    ∃ c, r = c ++ rest ∧ VarDeclOf (lexemes (t :: c)) d := by
  -- after the type, both forms read a name and a semicolon
  have hname {ty : TypeExpr} {s : List Token}
      (h : ((expectIdent eof s).andThen fun n s' _ => (expect eof .semicolon s').map fun semi =>
        (⟨ty, n, st.span.through semi.span⟩ : VarDecl)).Yields d rest) :
      ∃ v semi, s = [v, semi] ++ rest ∧ v.kind = .ident ∧ semi.kind = .semicolon ∧
        d = ⟨ty, ⟨v.text, v.span, none⟩, st.span.through semi.span⟩ := by
    obtain ⟨n, hn, hk⟩ := (Reading.andThen_yields _ _).1 h
    obtain ⟨semi, hsemi, rfl⟩ := (Reading.map_yields _ _).1 hk
    obtain ⟨v, hs, hvk, rfl⟩ := expectIdent_yields heof hn
    obtain ⟨hs', hsk⟩ := expect_yields heof hsemi (by decide)
    exact ⟨v, semi, by rw [hs, hs']; rfl, hvk, hsk, rfl⟩
  rcases declStart_eq hst with ⟨hk, rfl⟩ | ⟨ty, hty, rfl⟩
  · obtain ⟨tn, htn, hrest⟩ := (Reading.andThen_yields _ _).1 h
    obtain ⟨n, hn, rfl⟩ := (Reading.map_yields _ _).1 htn
    obtain ⟨u, hr, huk, rfl⟩ := expectIdent_yields heof hn
    obtain ⟨v, semi, hs, hvk, hsk, rfl⟩ := hname hrest
    refine ⟨u :: [v, semi], by rw [hr, hs]; rfl, ?_⟩
    simpa [hk, huk, hvk, hsk] using VarDeclOf.struct
  · obtain ⟨v, semi, hs, hvk, hsk, rfl⟩ := hname (Reading.ok_andThen_yields _ _ |>.1 h)
    refine ⟨[v, semi], hs, ?_⟩
    simpa [hvk, hsk] using VarDeclOf.base (BaseTypeOf.of_baseType hty)

/-- The size of a declaration the parser reads: `0` after `struct`, `-1` after a
base type, as the branch it reads the type by sets it. -/
theorem parseVarDecl_size (heof : eof.kind = .eof) {st : DeclStart} {r rest : List Token}
    {d : VarDecl} (hst : declStart? t = some st) (h : (parseVarDecl eof st r).Yields d rest) :
    d.size = if t.kind = .kwStruct then 0 else -1 := by
  obtain ⟨c, -, hd⟩ := parseVarDecl_sound heof hst h
  rw [hd.size_eq]
  simp

theorem blockDecls_sound (heof : eof.kind = .eof) {acc ds : List VarDecl} {ts rest : List Token}
    (h : (blockDecls eof acc ts).Yields ds rest) :
    ∃ c more, ts = c ++ rest ∧ ds = acc ++ more ∧ VarDeclsOf (lexemes c) more := by
  fun_induction blockDecls eof acc ts with
  | case1 acc t r st hst d s es hs hpv ih =>
    rw [Reading.after_yields, Reading.note_yields, Reading.widen_yields] at h
    obtain ⟨rfl, h⟩ := h
    have hd : (parseVarDecl eof st r).Yields d s := by rw [hpv]; exact ⟨rfl, rfl, rfl⟩
    obtain ⟨c₁, hr, hd⟩ := parseVarDecl_sound heof hst hd
    obtain ⟨c₂, more, hs, rfl, hm⟩ := ih h
    refine ⟨t :: c₁ ++ c₂, d :: more, by rw [hr, hs]; simp, by simp, ?_⟩
    simpa using VarDeclsOf.cons hd hm
  | case2 =>
    -- a broken declaration leaves its error behind
    simp at h
  | case3 | case4 =>
    obtain ⟨rfl, rfl⟩ := Reading.ok_yields.1 h
    exact ⟨[], [], rfl, by simp, .nil⟩


/-! ## Statements -/

theorem parseLoc_sound (heof : eof.kind = .eof) {ts rest : List Token} {l : Loc}
    (h : (parseLoc eof ts).Yields l rest) : ∃ c, ts = c ++ rest ∧ LocOf (lexemes c) l := by
  obtain ⟨n, hn, hk⟩ := (Reading.andThen_yields _ _).1 h
  obtain ⟨u, hs, huk, rfl⟩ := expectIdent_yields heof hn
  obtain ⟨c, hc, hl⟩ := locRest_sound heof (LocOf.var (n := u.text) (s := u.span)) hk
  exact ⟨u :: c, by rw [hs, hc]; rfl, by simpa [huk] using hl⟩

theorem parseCondition_sound (heof : eof.kind = .eof) {ts rest : List Token} {e : Expr}
    (h : (parseCondition eof ts).Yields e rest) :
    ∃ lp c rp, ts = lp :: c ++ rp :: rest ∧ lp.kind = .lparen ∧ rp.kind = .rparen ∧
      ExpOf true 0 (lexemes c) e := by
  obtain ⟨lp, hlp, hk⟩ := (Reading.andThen_yields _ _).1 h
  obtain ⟨e', he, hk'⟩ := (Reading.andThen_yields _ _).1 hk
  obtain ⟨rp, hrp, rfl⟩ := (Reading.map_yields _ _).1 hk'
  obtain ⟨hs, hlpk⟩ := expect_yields heof hlp (by decide)
  obtain ⟨c, hc, hw, -⟩ := parseExpr_sound heof he
  obtain ⟨hs', hrpk⟩ := expect_yields heof hrp (by decide)
  exact ⟨lp, c, rp, by rw [hs, hc, hs']; rfl, hlpk, hrpk, hw⟩


theorem afterLocation_sound (heof : eof.kind = .eof) (ht : t.kind = .ident) {r rest : List Token}
    {st : Stmt} (h : (identStatement.afterLocation eof t r).Yields st rest) :
    ∃ c, r = c ++ rest ∧ StmtOf true (lexemes (t :: c)) st := by
  unfold identStatement.afterLocation at h
  -- the reading of the location is taken apart, so that what it leaves is a variable
  rcases hloc : locRest eof (.var t.ident) r with ⟨res, s, es, hsuf⟩
  rw [hloc] at h
  obtain ⟨target, htarget, hk⟩ := (Reading.andThen_yields _ _).1 h
  obtain ⟨c₁, hr, hl⟩ := locRest_sound heof (LocOf.var (n := t.text) (s := t.span)) (hloc ▸ htarget)
  simp only [hloc] at hr
  -- the token after the location says what is done to it
  cases s with
  | nil => exact absurd hk Reading.fail_yields
  | cons v s =>
    simp only at hk
    split at hk
    · rename_i hv
      rw [Reading.after_yields, Reading.map_yields] at hk
      obtain ⟨semi, hsemi, rfl⟩ := hk
      obtain ⟨hs', hsk⟩ := expect_yields heof hsemi (by decide)
      refine ⟨c₁ ++ [v, semi], by rw [hr, hs']; simp, ?_⟩
      simpa [ht, hv, hsk] using StmtOf.increment (x := v.text) (y := semi.text) (s := t.span.through semi.span) hl
    · rename_i hv
      rw [Reading.after_yields, Reading.map_yields] at hk
      obtain ⟨semi, hsemi, rfl⟩ := hk
      obtain ⟨hs', hsk⟩ := expect_yields heof hsemi (by decide)
      refine ⟨c₁ ++ [v, semi], by rw [hr, hs']; simp, ?_⟩
      simpa [ht, hv, hsk] using StmtOf.decrement (x := v.text) (y := semi.text) (s := t.span.through semi.span) hl
    · rename_i hv
      rw [Reading.after_yields, Reading.andThen_yields] at hk
      obtain ⟨value, hval, hk⟩ := hk
      obtain ⟨semi, hsemi, rfl⟩ := (Reading.map_yields _ _).1 hk
      obtain ⟨c₂, hs', hw, -⟩ := parseExpr_sound heof hval
      obtain ⟨hs'', hsk⟩ := expect_yields heof hsemi (by decide)
      refine ⟨c₁ ++ v :: c₂ ++ [semi], by rw [hr, hs', hs'']; simp, ?_⟩
      have hassign : StmtOf true ((.ident, t.text) :: lexemes c₁ ++ (.assign, v.text) :: lexemes c₂ ++
          [(.semicolon, semi.text)])
          (.assign target value (t.span.through value.span) (t.span.through semi.span)) :=
        .assign hl hw
      simpa [ht, hv, hsk] using hassign
    · exact absurd hk Reading.fail_yields

theorem identStatement_sound (heof : eof.kind = .eof) (ht : t.kind = .ident) {r rest : List Token}
    {st : Stmt} (h : (identStatement eof t r).Yields st rest) :
    ∃ c, r = c ++ rest ∧ StmtOf true (lexemes (t :: c)) st := by
  unfold identStatement at h
  cases r with
  | nil => exact afterLocation_sound heof ht h
  | cons u r =>
    simp only at h
    split at h
    · rename_i hlp
      rw [Reading.after_yields, Reading.andThen_yields] at h
      obtain ⟨⟨args, close⟩, ha, hk⟩ := h
      obtain ⟨semi, hsemi, rfl⟩ := (Reading.map_yields _ _).1 hk
      obtain ⟨c, hr, hck, hw⟩ := parseArgs_sound heof ha
      obtain ⟨hs, hsk⟩ := expect_yields heof hsemi (by decide)
      refine ⟨u :: c ++ [close, semi], by rw [hr, hs]; simp, ?_⟩
      have hcall : StmtOf true ((.ident, t.text) :: (.lparen, u.text) :: lexemes c ++
          [(.rparen, close.text), (.semicolon, semi.text)])
          (.call t.ident args (t.span.through close.span) (t.span.through semi.span)) := .call hw
      simpa [ht, hlp, hck, hsk] using hcall
    · exact afterLocation_sound heof ht h


/-! ## Blocks and statements together -/

/-- A clean reading of a statement after its first token read a statement of the grammar. -/
def StatementReads (eof : Token) (ts : List Token) : Prop :=
  ∀ t r rd st rest, ts = t :: r → parseStatement eof t r = .ok rd → rd.Yields st rest →
    ∃ c, r = c ++ rest ∧ StmtOf true (lexemes (t :: c)) st

/-- A clean run of the statement loop read statements of the grammar. -/
def StmtsReads (eof : Token) (ts : List Token) : Prop :=
  ∀ acc ss rest, (stmtLoop eof acc ts).Yields ss rest →
    ∃ c more, ts = c ++ rest ∧ ss = acc ++ more ∧ StmtsOf true (lexemes c) more

/-- A clean reading of a block read a block of the grammar. -/
def BlockReads (eof : Token) (ts : List Token) : Prop :=
  ∀ b rest, (parseBlock eof ts).Yields b rest →
    ∃ c, ts = c ++ rest ∧ BlockOf true (lexemes c) b.decls b.stmts

/-- The condition and block of `if`, `while` and `repeat`. -/
theorem conditionBlock_sound (heof : eof.kind = .eof) {r s s' : List Token} {c : Expr} {b : Block}
    (hblock : BlockReads eof s) (hc : (parseCondition eof r).Yields c s)
    (hb : (parseBlock eof s).Yields b s') :
    ∃ lp w rp w', r = lp :: w ++ rp :: w' ++ s' ∧ lp.kind = .lparen ∧ rp.kind = .rparen ∧
      ExpOf true 0 (lexemes w) c ∧ BlockOf true (lexemes w') b.decls b.stmts := by
  obtain ⟨lp, w, rp, hr, hlp, hrp, hw⟩ := parseCondition_sound heof hc
  obtain ⟨w', hs, hbw⟩ := hblock b s' hb
  exact ⟨lp, w, rp, w', by rw [hr, hs]; simp, hlp, hrp, hw, hbw⟩

theorem parseStatement_reads (heof : eof.kind = .eof) {ts : List Token}
    (hblock : ∀ s : List Token, s.length < ts.length → BlockReads eof s) :
    StatementReads eof ts := by
  intro t r rd st rest hts hrd h
  subst hts
  have hblock' {s : List Token} (hs : s <:+ r) : BlockReads eof s :=
    hblock s (by have := hs.length_le; simp only [List.length_cons]; omega)
  rw [parseStatement.eq_def] at hrd
  split at hrd
  · -- cin >> location ;
    rename_i hk
    cases hrd
    obtain ⟨rdt, s, -, hread, hk'⟩ := h.of_andThen
    obtain ⟨l, s', -, hl, hk''⟩ := hk'.of_andThen
    obtain ⟨semi, hsemi, rfl⟩ := (Reading.map_yields _ _).1 hk''
    obtain ⟨hs, hrk⟩ := expect_yields heof hread (by decide)
    obtain ⟨c, hc, hw⟩ := parseLoc_sound heof hl
    obtain ⟨hs', hsk⟩ := expect_yields heof hsemi (by decide)
    refine ⟨rdt :: c ++ [semi], by rw [hs, hc, hs']; simp, ?_⟩
    simpa [hk, hrk, hsk] using (StmtOf.read (a := t.text) (b := rdt.text) (y := semi.text)
      (s := t.span.through semi.span) hw : StmtOf true _ _)
  · -- cout << expression ;
    rename_i hk
    cases hrd
    obtain ⟨wrt, s, -, hwrite, hk'⟩ := h.of_andThen
    obtain ⟨v, s', -, hv, hk''⟩ := hk'.of_andThen
    obtain ⟨semi, hsemi, rfl⟩ := (Reading.map_yields _ _).1 hk''
    obtain ⟨hs, hwk⟩ := expect_yields heof hwrite (by decide)
    obtain ⟨c, hc, hw, -⟩ := parseExpr_sound heof hv
    obtain ⟨hs', hsk⟩ := expect_yields heof hsemi (by decide)
    refine ⟨wrt :: c ++ [semi], by rw [hs, hc, hs']; simp, ?_⟩
    simpa [hk, hwk, hsk] using StmtOf.write (a := t.text) (b := wrt.text) (y := semi.text)
      (s := t.span.through semi.span) hw
  · -- if, with or without else
    rename_i hk
    cases hrd
    obtain ⟨c, s, hsuf, hc, hk'⟩ := h.of_andThen
    obtain ⟨b, s', hsuf', hb, hk''⟩ := hk'.of_andThen
    obtain ⟨lp, w, rp, w', hr, hlp, hrp, hw, hbw⟩ := conditionBlock_sound heof (hblock' hsuf) hc hb
    cases s' with
    | nil =>
      obtain ⟨rfl, rfl⟩ := Reading.ok_yields.1 hk''
      refine ⟨lp :: w ++ rp :: w', by rw [hr], ?_⟩
      simpa [hk, hlp, hrp] using StmtOf.ifThen (a := t.text) (b := lp.text) (y := rp.text)
        (s := t.span.through b.closing.span) hw hbw
    | cons u s'' =>
      simp only at hk''
      split at hk''
      · rename_i hu
        rw [Reading.after_yields, Reading.map_yields] at hk''
        obtain ⟨b', hb', rfl⟩ := hk''
        have hsuf'' : s'' <:+ r := (List.suffix_cons u s'').trans (hsuf'.trans hsuf)
        obtain ⟨w'', hs'', hbw'⟩ := hblock' hsuf'' b' rest hb'
        refine ⟨lp :: w ++ rp :: w' ++ u :: w'', by rw [hr, hs'']; simp, ?_⟩
        simpa [hk, hlp, hrp, hu] using StmtOf.ifThenElse (a := t.text) (b := lp.text) (y := rp.text)
          (z := u.text) (s := t.span.through b'.closing.span) hw hbw hbw'
      · obtain ⟨rfl, rfl⟩ := Reading.ok_yields.1 hk''
        refine ⟨lp :: w ++ rp :: w', by rw [hr], ?_⟩
        simpa [hk, hlp, hrp] using StmtOf.ifThen (a := t.text) (b := lp.text) (y := rp.text)
          (s := t.span.through b.closing.span) hw hbw
  · -- while
    rename_i hk
    cases hrd
    obtain ⟨c, s, hsuf, hc, hk'⟩ := h.of_andThen
    obtain ⟨b, hb, rfl⟩ := (Reading.map_yields _ _).1 hk'
    obtain ⟨lp, w, rp, w', hr, hlp, hrp, hw, hbw⟩ := conditionBlock_sound heof (hblock' hsuf) hc hb
    refine ⟨lp :: w ++ rp :: w', by rw [hr], ?_⟩
    simpa [hk, hlp, hrp] using StmtOf.whileLoop (a := t.text) (b := lp.text) (y := rp.text)
      (s := t.span.through b.closing.span) hw hbw
  · -- repeat
    rename_i hk
    cases hrd
    obtain ⟨c, s, hsuf, hc, hk'⟩ := h.of_andThen
    obtain ⟨b, hb, rfl⟩ := (Reading.map_yields _ _).1 hk'
    obtain ⟨lp, w, rp, w', hr, hlp, hrp, hw, hbw⟩ := conditionBlock_sound heof (hblock' hsuf) hc hb
    refine ⟨lp :: w ++ rp :: w', by rw [hr], ?_⟩
    simpa [hk, hlp, hrp] using StmtOf.repeatLoop (a := t.text) (b := lp.text) (y := rp.text)
      (s := t.span.through b.closing.span) hw hbw
  · -- return, with or without a value
    rename_i hk
    cases hrd
    split at h
    · obtain ⟨semi, hsemi, rfl⟩ := (Reading.map_yields _ _).1 h
      obtain ⟨hs, hsk⟩ := expect_yields heof hsemi (by decide)
      refine ⟨[semi], hs, ?_⟩
      simpa [hk, hsk] using (StmtOf.retNone (a := t.text) (y := semi.text)
        (s := t.span.through semi.span) : StmtOf true _ _)
    · obtain ⟨v, s, -, hv, hk'⟩ := h.of_andThen
      obtain ⟨semi, hsemi, rfl⟩ := (Reading.map_yields _ _).1 hk'
      obtain ⟨c, hc, hw, -⟩ := parseExpr_sound heof hv
      obtain ⟨hs, hsk⟩ := expect_yields heof hsemi (by decide)
      refine ⟨c ++ [semi], by rw [hc, hs]; simp, ?_⟩
      simpa [hk, hsk] using StmtOf.retSome (a := t.text) (y := semi.text)
        (s := t.span.through semi.span) hw
  · -- a statement that starts with a name
    rename_i hk
    cases hrd
    exact identStatement_sound heof hk h
  · -- no statement starts with any other token
    split at hrd <;> cases hrd

theorem stmtLoop_reads {ts : List Token} (hstmt : StatementReads eof ts)
    (hloop : ∀ s : List Token, s.length < ts.length → StmtsReads eof s) :
    StmtsReads eof ts := by
  intro acc ss rest h
  cases ts with
  | nil =>
    rw [stmtLoop] at h
    obtain ⟨rfl, rfl⟩ := Reading.ok_yields.1 h
    exact ⟨[], [], rfl, by simp, .nil⟩
  | cons t r =>
    rw [stmtLoop] at h
    split at h
    · obtain ⟨rfl, rfl⟩ := Reading.ok_yields.1 h
      exact ⟨[], [], rfl, by simp, .nil⟩
    rename_i hk
    split at h
    · -- no statement starts with the token: its error stays
      simp at h
    · rename_i st s es hs hps
      simp only [Reading.after_yields, Reading.note_yields, Reading.widen_yields] at h
      obtain ⟨rfl, h⟩ := h
      obtain ⟨c₁, hr, hst⟩ := hstmt t r _ st s rfl hps ⟨rfl, rfl, rfl⟩
      obtain ⟨c₂, more, hs', rfl, hm⟩ :=
        hloop s (by have := hs.length_le; simp only [List.length_cons]; omega) _ _ _ h
      refine ⟨t :: c₁ ++ c₂, st :: more, by rw [hr, hs']; simp, by simp, ?_⟩
      simpa using StmtsOf.cons hst hm
    · -- a broken statement leaves its error behind
      simp at h

theorem parseBlock_reads (heof : eof.kind = .eof) {ts : List Token}
    (hloop : ∀ s : List Token, s.length < ts.length → StmtsReads eof s) :
    BlockReads eof ts := by
  intro b rest h
  cases ts with
  | nil =>
    rw [parseBlock] at h
    exact absurd h Reading.fail_yields
  | cons t r =>
    rw [parseBlock] at h
    split at h
    · rename_i hk
      rw [Reading.after_yields] at h
      obtain ⟨ds, s, hs, hds, hk'⟩ := h.of_andThen
      obtain ⟨ss, s', hs', hss, hk''⟩ := hk'.of_andThen
      obtain ⟨close, hclose, rfl⟩ := (Reading.map_yields _ _).1 hk''
      obtain ⟨c₁, more₁, hr, rfl, hw₁⟩ := blockDecls_sound heof hds
      obtain ⟨c₂, more₂, hs₂, rfl, hw₂⟩ :=
        hloop s (by have := hs.length_le; simp only [List.length_cons]; omega) _ _ _ hss
      obtain ⟨hs₃, hck⟩ := expect_yields heof hclose (by decide)
      refine ⟨t :: c₁ ++ c₂ ++ [close], by rw [hr, hs₂, hs₃]; simp, ?_⟩
      simpa [hk, hck] using (BlockOf.mk (a := t.text) (b := close.text) hw₁ hw₂ : BlockOf true _ _ _)
    · exact absurd h Reading.fail_yields

/-- The statement readers' answers, for every list of tokens, by induction on
its length. -/
theorem stmt_readers_sound (heof : eof.kind = .eof) (ts : List Token) :
    StatementReads eof ts ∧ StmtsReads eof ts ∧ BlockReads eof ts := by
  suffices ∀ n (ts : List Token), ts.length = n →
      StatementReads eof ts ∧ StmtsReads eof ts ∧ BlockReads eof ts from this _ ts rfl
  intro n
  induction n using Nat.strongRecOn with
  | ind n ih =>
    intro ts hn
    subst hn
    have hblock s (hs : s.length < ts.length) := (ih _ hs s rfl).2.2
    have hloop s (hs : s.length < ts.length) := (ih _ hs s rfl).2.1
    -- a statement reads blocks on fewer tokens; the loop reads a statement on as many
    have hstmt := parseStatement_reads heof hblock
    exact ⟨hstmt, stmtLoop_reads hstmt hloop, parseBlock_reads heof hloop⟩

theorem parseBlock_sound (heof : eof.kind = .eof) {ts rest : List Token} {b : Block}
    (h : (parseBlock eof ts).Yields b rest) :
    ∃ c, ts = c ++ rest ∧ BlockOf true (lexemes c) b.decls b.stmts :=
  (stmt_readers_sound heof ts).2.2 b rest h

end EggFront
