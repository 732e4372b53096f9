import EggFront.Proofs.Parse.CompleteExpr

/-!
# Statements of the grammar are read by the parser

The converse of `Parse.SoundStmt`: the tokens of a declaration, a statement or
a block of the grammar are read exactly, into trees equal to the grammar's up to
spans. As for expressions, what follows matters: declarations are read up to a
token that starts none (`EndsDecls`), and an `if` without `else` only before a
token other than `else` (`EndsIf`); in a block of the grammar what follows is a
statement or the closing brace, which is both.

The loops that recover from errors take their ordinary branch at every turn
here, since each item is read cleanly; `blockDecls_cons_continues` and
`stmtLoop_cons_continues` say so for one turn. Statements and blocks are
handled together, by induction on the derivation.
-/

namespace EggFront

open Grammar

variable {eof t : Token}

/-! ## Expressions before a closing token -/

/-- An expression of the grammar before `;` or `)` is read exactly. -/
theorem Grammar.ExpOf.parseExpr_complete {w : List Lexeme} {e : Expr} (h : ExpOf true 0 w e)
    {c : List Token} (hc : lexemes c = w) :
    ∃ e', e'.erase = e.erase ∧ ∀ eof u rest, (u.kind = .semicolon ∨ u.kind = .rparen) →
      (parseExpr eof 0 (c ++ u :: rest)).Yields e' (u :: rest) := by
  obtain ⟨e', f, he, -, hcont⟩ := h.complete hc
  refine ⟨e', he, fun eof u rest hu => ?_⟩
  have hfollow : EndsTerm (u :: rest) ∧ ∀ m, Stops m (u :: rest) := by
    apply ends_of_head
    intro v hv
    simp only [List.head?_cons, Option.mem_def, Option.some.injEq] at hv
    subst hv
    rcases hu with hu | hu <;> rw [hu] <;> decide
  exact parseExpr_yields_of_continues (hcont eof 0 _ (by simp) hfollow.1 (hfollow.2 _)) (hfollow.2 0)

/-- The condition of `if`, `while` and `repeat`, in its parentheses. -/
theorem Grammar.ExpOf.parseCondition_complete {w : List Lexeme} {e : Expr} (h : ExpOf true 0 w e)
    {c : List Token} (hc : lexemes c = w) :
    ∃ e', e'.erase = e.erase ∧ ∀ eof lp rp rest, lp.kind = .lparen → rp.kind = .rparen →
      (parseCondition eof (lp :: c ++ rp :: rest)).Yields e' rest := by
  obtain ⟨e', he, hy⟩ := h.parseExpr_complete hc
  refine ⟨e', he, fun eof lp rp rest hlp hrp => ?_⟩
  unfold parseCondition
  refine Reading.andThen_yields_of (expect_yields_of _ hlp) fun _ => ?_
  refine Reading.andThen_yields_of (hy eof rp rest (.inr hrp)) fun _ => ?_
  exact expect_map_yields_of rest hrp

/-- The location of a location of the grammar, after its name, before what is not a field. -/
theorem Grammar.LocOf.locRest_yields {w : List Lexeme} {l : Loc} (h : LocOf w l) {c : List Token}
    (hc : lexemes c = w) :
    ∃ t c', c = t :: c' ∧ t.kind = .ident ∧ (∀ u ∈ c'.head?, u.kind = .dot) ∧
      ∃ l', l'.erase = l.erase ∧ ∀ eof rest, (∀ u ∈ rest.head?, u.kind ≠ .dot) →
        (locRest eof (.var t.ident) (c' ++ rest)).Yields l' rest := by
  obtain ⟨t, c', rfl, hk, hdot, l', he, hcont⟩ := h.locRest_complete hc
  refine ⟨t, c', rfl, hk, hdot, l', he, fun eof rest hrest => hcont eof rest l' rest ?_⟩
  rw [locRest_stop hrest]
  exact Reading.ok_yields.2 ⟨rfl, rfl⟩

theorem Grammar.LocOf.parseLoc_complete {w : List Lexeme} {l : Loc} (h : LocOf w l) {c : List Token}
    (hc : lexemes c = w) :
    ∃ l', l'.erase = l.erase ∧ ∀ eof rest, (∀ u ∈ rest.head?, u.kind ≠ .dot) →
      (parseLoc eof (c ++ rest)).Yields l' rest := by
  obtain ⟨t, c', rfl, hk, -, l', he, hy⟩ := h.locRest_yields hc
  refine ⟨l', he, fun eof rest hrest => ?_⟩
  unfold parseLoc
  exact Reading.andThen_yields_of (expectIdent_yields_of _ hk) fun _ => hy eof rest hrest

/-! ## Declarations of variables -/

theorem Grammar.BaseTypeOf.baseType {a : Lexeme} {ty : TypeExpr} (h : BaseTypeOf a ty) {t : Token}
    (ht : t.kind = a.1) : ∃ ty', baseType? t = some ty' ∧ ty'.erase = ty.erase := by
  cases h <;> simp [baseType?, ht, TypeExpr.erase]

theorem Grammar.VarDeclOf.complete {w : List Lexeme} {d : VarDecl} (h : VarDeclOf w d)
    {c : List Token} (hc : lexemes c = w) :
    ∃ t c' st, c = t :: c' ∧ declStart? t = some st ∧ ∃ d', d'.erase = d.erase ∧
      ∀ eof rest, (parseVarDecl eof st (c' ++ rest)).Yields d' rest := by
  cases h with
  | base ha =>
    obtain ⟨t, c₁, rfl, hk, -, hc₁⟩ := lexemes_eq_cons hc
    obtain ⟨n, c₂, rfl, hnk, hnx, hc₂⟩ := lexemes_eq_cons hc₁
    obtain ⟨semi, c₃, rfl, hsk, -, hc₃⟩ := lexemes_eq_cons hc₂
    obtain rfl := lexemes_eq_nil hc₃
    obtain ⟨ty', hty, htye⟩ := ha.baseType hk
    have hst : declStart? t = some (.base ty') := by
      have hns : t.kind ≠ .kwStruct := by
        intro hs
        simp [baseType?, hs] at hty
      simp [declStart?, hns, hty]
    refine ⟨t, [n, semi], .base ty', rfl, hst, ⟨ty', ⟨n.text, n.span, none⟩, ty'.span.through semi.span⟩,
      by simp [VarDecl.erase, Ident.erase, htye, hnx], fun eof rest => ?_⟩
    simp only [parseVarDecl, List.cons_append, List.nil_append, Reading.ok_andThen_yields]
    refine Reading.andThen_yields_of (expectIdent_yields_of _ hnk) fun _ => ?_
    exact expect_map_yields_of rest hsk
  | struct =>
    obtain ⟨kw, c₁, rfl, hk, -, hc₁⟩ := lexemes_eq_cons hc
    obtain ⟨tn, c₂, rfl, htk, htx, hc₂⟩ := lexemes_eq_cons hc₁
    obtain ⟨n, c₃, rfl, hnk, hnx, hc₃⟩ := lexemes_eq_cons hc₂
    obtain ⟨semi, c₄, rfl, hsk, -, hc₄⟩ := lexemes_eq_cons hc₃
    obtain rfl := lexemes_eq_nil hc₄
    refine ⟨kw, [tn, n, semi], .struct kw, rfl, by simp [declStart?, hk],
      ⟨.struct ⟨tn.text, tn.span, none⟩ (kw.span.through tn.span), ⟨n.text, n.span, none⟩,
        kw.span.through semi.span⟩,
      by simp [VarDecl.erase, TypeExpr.erase, Ident.erase, htx, hnx], fun eof rest => ?_⟩
    simp only [parseVarDecl, List.cons_append, List.nil_append]
    refine Reading.andThen_yields_of ((Reading.map_yields _ _).2 ⟨_, expectIdent_yields_of _ htk, rfl⟩)
      fun _ => ?_
    refine Reading.andThen_yields_of (expectIdent_yields_of _ hnk) fun _ => ?_
    exact expect_map_yields_of rest hsk


/-- A declaration read cleanly after its first token is added to the block's
declarations, and the reading goes on after it. -/
theorem blockDecls_cons_continues {acc : List VarDecl} {st : DeclStart} {r s : List Token}
    {d : VarDecl} (hst : declStart? t = some st) (hd : (parseVarDecl eof st r).Yields d s) :
    (blockDecls eof acc (t :: r)).Continues (blockDecls eof (acc ++ [d]) s) := by
  rw [blockDecls]
  simp only [hst]
  rcases hpv : parseVarDecl eof st r with ⟨res, s', es, hsuf⟩
  rw [hpv] at hd
  obtain ⟨h1, h2, h3⟩ := hd
  simp only at h1 h2 h3
  subst h1 h2 h3
  intro a rest h
  simpa using h

theorem fieldLoop_cons_continues {acc : List VarDecl} {st : DeclStart} {r s : List Token}
    {d : VarDecl} (hst : declStart? t = some st) (hd : (parseVarDecl eof st r).Yields d s) :
    (fieldLoop eof acc (t :: r)).Continues (fieldLoop eof (acc ++ [d]) s) := by
  rw [fieldLoop]
  simp only [hst, Reading.after_continues]
  exact hd.andThen_continues hd.suffix

/-- No declaration starts before `ts`. -/
def EndsDecls (ts : List Token) : Prop := ∀ u ∈ ts.head?, declStart? u = none

theorem blockDecls_stop {acc : List VarDecl} {ts : List Token} (h : EndsDecls ts) :
    blockDecls eof acc ts = .ok acc ts := by
  cases ts with
  | nil => rw [blockDecls]
  | cons u r =>
    rw [blockDecls]
    simp only [h u rfl]

theorem fieldLoop_stop {acc : List VarDecl} {ts : List Token} (h : EndsDecls ts) :
    fieldLoop eof acc ts = .ok acc ts := by
  cases ts with
  | nil => rw [fieldLoop]
  | cons u r =>
    rw [fieldLoop]
    simp only [h u rfl]

/-- Declarations of the grammar, before what starts no declaration, are read by
both loops over declarations: of a block, and of a struct's fields. -/
theorem Grammar.VarDeclsOf.complete {w : List Lexeme} {ds : List VarDecl} (h : VarDeclsOf w ds)
    {c : List Token} (hc : lexemes c = w) :
    ∃ ds', ds'.map VarDecl.erase = ds.map VarDecl.erase ∧ ∀ eof rest acc, EndsDecls rest →
      (blockDecls eof acc (c ++ rest)).Yields (acc ++ ds') rest ∧
        (fieldLoop eof acc (c ++ rest)).Yields (acc ++ ds') rest := by
  induction h generalizing c with
  | nil =>
    obtain rfl := lexemes_eq_nil hc
    refine ⟨[], rfl, fun eof rest acc hrest => ?_⟩
    rw [List.nil_append, List.append_nil, blockDecls_stop hrest, fieldLoop_stop hrest]
    exact ⟨Reading.ok_yields.2 ⟨rfl, rfl⟩, Reading.ok_yields.2 ⟨rfl, rfl⟩⟩
  | cons hd _ ih =>
    obtain ⟨c₁, c₂, rfl, hc₁, hc₂⟩ := lexemes_eq_append hc
    obtain ⟨t, c₁', st, rfl, hst, d', hde, hy⟩ := hd.complete hc₁
    obtain ⟨ds', hdse, hys⟩ := ih hc₂
    refine ⟨d' :: ds', by simp [hde, hdse], fun eof rest acc hrest => ?_⟩
    have hd := hy eof (c₂ ++ rest)
    obtain ⟨hb, hf⟩ := hys eof rest (acc ++ [d']) hrest
    rw [show t :: c₁' ++ c₂ ++ rest = t :: (c₁' ++ (c₂ ++ rest)) by simp]
    constructor
    · simpa using blockDecls_cons_continues hst hd _ _ hb
    · simpa using fieldLoop_cons_continues hst hd _ _ hf


/-! ## Statements and blocks -/

/-- A statement read cleanly after its first token is added to the block's
statements, and the loop goes on after it. -/
theorem stmtLoop_cons_continues {acc : List Stmt} {r s : List Token} {rd : Reading r Stmt}
    {st : Stmt} (hk : t.kind ≠ .rcurly) (hrd : parseStatement eof t r = .ok rd)
    (hy : rd.Yields st s) :
    (stmtLoop eof acc (t :: r)).Continues (stmtLoop eof (acc ++ [st]) s) := by
  rw [stmtLoop, dif_neg hk]
  obtain ⟨res, s', es, hsuf⟩ := rd
  obtain ⟨h1, h2, h3⟩ := hy
  simp only at h1 h2 h3
  subst h1 h2 h3
  simp only [hrd]
  intro a rest h
  simpa using h

theorem stmtLoop_stop {acc : List Stmt} {ts : List Token} (h : ∀ u ∈ ts.head?, u.kind = .rcurly) :
    stmtLoop eof acc ts = .ok acc ts := by
  cases ts with
  | nil => rw [stmtLoop]
  | cons u r => rw [stmtLoop, dif_pos (h u rfl)]

/-- A name not followed by `(` starts a statement on a location. -/
theorem identStatement_of_not_lparen {r : List Token} (h : ∀ u ∈ r.head?, u.kind ≠ .lparen) :
    identStatement eof t r = identStatement.afterLocation eof t r := by
  cases r with
  | nil => rfl
  | cons u r =>
    unfold identStatement
    simp only [h u rfl, if_false]

/-- What follows a location: its next field's dot, or the token after it. -/
theorem head_after_location {c s : List Token} {o : Token} (hdot : ∀ u ∈ c.head?, u.kind = .dot)
    (ho : o.kind ≠ .lparen) : ∀ u ∈ (c ++ o :: s).head?, u.kind ≠ .lparen := by
  intro u hu
  cases c with
  | nil =>
    simp only [List.nil_append, List.head?_cons, Option.mem_def, Option.some.injEq] at hu
    rw [← hu]
    exact ho
  | cons v c =>
    simp only [List.cons_append, List.head?_cons, Option.mem_def, Option.some.injEq] at hu
    rw [← hu, hdot v rfl]
    decide

/-- Nothing after a statement makes it the first branch of an `if`. -/
def EndsIf (ts : List Token) : Prop := ∀ u ∈ ts.head?, u.kind ≠ .kwElse

/-- An `if` without `else`: the one statement that an `else` after it would go on. -/
def Stmt.OpensElse : Stmt → Prop
  | .ifThen .. => True
  | _ => False


mutual

/-- A statement of the grammar is read by the statement reader after its first
token, an `if` without `else` before anything but `else`. -/
theorem Grammar.StmtOf.complete {w : List Lexeme} {st : Stmt} :
    StmtOf true w st → ∀ {c : List Token}, lexemes c = w →
      ∃ t c', c = t :: c' ∧ ∃ st', st'.erase = st.erase ∧
        ∀ eof rest, (st.OpensElse → EndsIf rest) →
          ∃ rd, parseStatement eof t (c' ++ rest) = .ok rd ∧ rd.Yields st' rest
  | .assign hl hv, c, hc => by
    obtain ⟨cA, cS, rfl, hcA, hcS⟩ := lexemes_eq_append hc
    obtain ⟨semi, c₀, rfl, hsk, -, hc₀⟩ := lexemes_eq_cons hcS
    obtain rfl := lexemes_eq_nil hc₀
    obtain ⟨c₁, cB, rfl, hc₁, hcB⟩ := lexemes_eq_append hcA
    obtain ⟨o, c₂, rfl, hok, -, hc₂⟩ := lexemes_eq_cons hcB
    obtain ⟨n, c₁', rfl, hnk, hdot, l', hle, hly⟩ := hl.locRest_yields hc₁
    obtain ⟨v', hve, hvy⟩ := hv.parseExpr_complete hc₂
    refine ⟨n, c₁' ++ o :: c₂ ++ [semi], by simp,
      .assign l' v' (n.span.through v'.span) (n.span.through semi.span),
      by simp [Stmt.erase, hle, hve], fun eof rest _ => ?_⟩
    rw [parseStatement.eq_def]
    simp only [hnk]
    refine ⟨_, rfl, ?_⟩
    rw [show c₁' ++ o :: c₂ ++ [semi] ++ rest = c₁' ++ o :: (c₂ ++ semi :: rest) by simp,
      identStatement_of_not_lparen (head_after_location hdot (by rw [hok]; decide))]
    unfold identStatement.afterLocation
    refine Reading.andThen_yields_of (hly eof _ (by simp [hok])) fun _ => ?_
    simp only [hok, Reading.after_yields]
    refine Reading.andThen_yields_of (hvy eof semi rest (.inl hsk)) fun _ => ?_
    exact expect_map_yields_of rest hsk
  | .increment hl, c, hc => by
    obtain ⟨c₁, cB, rfl, hc₁, hcB⟩ := lexemes_eq_append hc
    obtain ⟨o, c₂, rfl, hok, -, hc₂⟩ := lexemes_eq_cons hcB
    obtain ⟨semi, c₃, rfl, hsk, -, hc₃⟩ := lexemes_eq_cons hc₂
    obtain rfl := lexemes_eq_nil hc₃
    obtain ⟨n, c₁', rfl, hnk, hdot, l', hle, hly⟩ := hl.locRest_yields hc₁
    refine ⟨n, c₁' ++ [o, semi], by simp, .increment l' (n.span.through semi.span),
      by simp [Stmt.erase, hle], fun eof rest _ => ?_⟩
    rw [parseStatement.eq_def]
    simp only [hnk]
    refine ⟨_, rfl, ?_⟩
    rw [show c₁' ++ [o, semi] ++ rest = c₁' ++ o :: semi :: rest by simp,
      identStatement_of_not_lparen (head_after_location hdot (by rw [hok]; decide))]
    unfold identStatement.afterLocation
    refine Reading.andThen_yields_of (hly eof _ (by simp [hok])) fun _ => ?_
    simp only [hok, Reading.after_yields]
    exact expect_map_yields_of rest hsk
  | .decrement hl, c, hc => by
    obtain ⟨c₁, cB, rfl, hc₁, hcB⟩ := lexemes_eq_append hc
    obtain ⟨o, c₂, rfl, hok, -, hc₂⟩ := lexemes_eq_cons hcB
    obtain ⟨semi, c₃, rfl, hsk, -, hc₃⟩ := lexemes_eq_cons hc₂
    obtain rfl := lexemes_eq_nil hc₃
    obtain ⟨n, c₁', rfl, hnk, hdot, l', hle, hly⟩ := hl.locRest_yields hc₁
    refine ⟨n, c₁' ++ [o, semi], by simp, .decrement l' (n.span.through semi.span),
      by simp [Stmt.erase, hle], fun eof rest _ => ?_⟩
    rw [parseStatement.eq_def]
    simp only [hnk]
    refine ⟨_, rfl, ?_⟩
    rw [show c₁' ++ [o, semi] ++ rest = c₁' ++ o :: semi :: rest by simp,
      identStatement_of_not_lparen (head_after_location hdot (by rw [hok]; decide))]
    unfold identStatement.afterLocation
    refine Reading.andThen_yields_of (hly eof _ (by simp [hok])) fun _ => ?_
    simp only [hok, Reading.after_yields]
    exact expect_map_yields_of rest hsk
  | .read hl, c, hc => by
    obtain ⟨cA, cS, rfl, hcA, hcS⟩ := lexemes_eq_append hc
    obtain ⟨semi, c₀, rfl, hsk, -, hc₀⟩ := lexemes_eq_cons hcS
    obtain rfl := lexemes_eq_nil hc₀
    obtain ⟨t, c₁, rfl, hk, -, hc₁⟩ := lexemes_eq_cons hcA
    obtain ⟨rdt, c₂, rfl, hrk, -, hc₂⟩ := lexemes_eq_cons hc₁
    obtain ⟨l', hle, hly⟩ := hl.parseLoc_complete hc₂
    refine ⟨t, rdt :: c₂ ++ [semi], by simp, .read l' (t.span.through semi.span),
      by simp [Stmt.erase, hle], fun eof rest _ => ?_⟩
    rw [parseStatement.eq_def]
    simp only [hk]
    refine ⟨_, rfl, ?_⟩
    rw [show rdt :: c₂ ++ [semi] ++ rest = rdt :: (c₂ ++ semi :: rest) by simp]
    refine Reading.andThen_yields_of (expect_yields_of _ hrk) fun _ => ?_
    refine Reading.andThen_yields_of (hly eof _ (by simp [hsk])) fun _ => ?_
    exact expect_map_yields_of rest hsk
  | .write hv, c, hc => by
    obtain ⟨cA, cS, rfl, hcA, hcS⟩ := lexemes_eq_append hc
    obtain ⟨semi, c₀, rfl, hsk, -, hc₀⟩ := lexemes_eq_cons hcS
    obtain rfl := lexemes_eq_nil hc₀
    obtain ⟨t, c₁, rfl, hk, -, hc₁⟩ := lexemes_eq_cons hcA
    obtain ⟨wrt, c₂, rfl, hwk, -, hc₂⟩ := lexemes_eq_cons hc₁
    obtain ⟨v', hve, hvy⟩ := hv.parseExpr_complete hc₂
    refine ⟨t, wrt :: c₂ ++ [semi], by simp, .write v' (t.span.through semi.span),
      by simp [Stmt.erase, hve], fun eof rest _ => ?_⟩
    rw [parseStatement.eq_def]
    simp only [hk]
    refine ⟨_, rfl, ?_⟩
    rw [show wrt :: c₂ ++ [semi] ++ rest = wrt :: (c₂ ++ semi :: rest) by simp]
    refine Reading.andThen_yields_of (expect_yields_of _ hwk) fun _ => ?_
    refine Reading.andThen_yields_of (hvy eof semi rest (.inl hsk)) fun _ => ?_
    exact expect_map_yields_of rest hsk
  | .ifThen hcond hb, c, hc => by
    obtain ⟨t, c₁, rfl, hk, -, hc₁⟩ := lexemes_eq_cons hc
    obtain ⟨lp, c₂, rfl, hlp, -, hc₂⟩ := lexemes_eq_cons hc₁
    obtain ⟨cc, cR, rfl, hcc, hcR⟩ := lexemes_eq_append hc₂
    obtain ⟨rp, cb, rfl, hrp, -, hcb⟩ := lexemes_eq_cons hcR
    obtain ⟨e', hee, hcy⟩ := hcond.parseCondition_complete hcc
    obtain ⟨b, hbd, hbs, hby⟩ := hb.complete hcb
    refine ⟨t, lp :: cc ++ rp :: cb, by simp, .ifThen e' b.decls b.stmts (t.span.through b.closing.span),
      by simp [Stmt.erase, hee, hbd, hbs], fun eof rest hend => ?_⟩
    rw [parseStatement.eq_def]
    simp only [hk]
    refine ⟨_, rfl, ?_⟩
    rw [show lp :: cc ++ rp :: cb ++ rest = lp :: cc ++ rp :: (cb ++ rest) by simp]
    refine Reading.andThen_yields_of (hcy eof lp rp _ hlp hrp) fun _ => ?_
    refine Reading.andThen_yields_of (hby eof rest) fun _ => ?_
    -- no `else` follows, so the statement ends with the block
    cases rest with
    | nil => exact Reading.ok_yields.2 ⟨rfl, rfl⟩
    | cons u r =>
      simp only [if_neg (hend trivial u rfl)]
      exact Reading.ok_yields.2 ⟨rfl, rfl⟩
  | .ifThenElse hcond hb hb', c, hc => by
    obtain ⟨cA, cE, rfl, hcA, hcE⟩ := lexemes_eq_append hc
    obtain ⟨t, c₁, rfl, hk, -, hc₁⟩ := lexemes_eq_cons hcA
    obtain ⟨lp, c₂, rfl, hlp, -, hc₂⟩ := lexemes_eq_cons hc₁
    obtain ⟨cc, cR, rfl, hcc, hcR⟩ := lexemes_eq_append hc₂
    obtain ⟨rp, cb, rfl, hrp, -, hcb⟩ := lexemes_eq_cons hcR
    obtain ⟨el, cb', rfl, hel, -, hcb'⟩ := lexemes_eq_cons hcE
    obtain ⟨e', hee, hcy⟩ := hcond.parseCondition_complete hcc
    obtain ⟨b, hbd, hbs, hby⟩ := hb.complete hcb
    obtain ⟨b', hbd', hbs', hby'⟩ := hb'.complete hcb'
    refine ⟨t, lp :: cc ++ rp :: cb ++ el :: cb', by simp,
      .ifThenElse e' b.decls b.stmts b'.decls b'.stmts (t.span.through b'.closing.span),
      by simp [Stmt.erase, hee, hbd, hbs, hbd', hbs'], fun eof rest _ => ?_⟩
    rw [parseStatement.eq_def]
    simp only [hk]
    refine ⟨_, rfl, ?_⟩
    rw [show lp :: cc ++ rp :: cb ++ el :: cb' ++ rest = lp :: cc ++ rp :: (cb ++ el :: (cb' ++ rest))
      by simp]
    refine Reading.andThen_yields_of (hcy eof lp rp _ hlp hrp) fun _ => ?_
    refine Reading.andThen_yields_of (hby eof _) fun _ => ?_
    simp only [hel, if_true, Reading.after_yields]
    exact (Reading.map_yields _ _).2 ⟨b', hby' eof rest, rfl⟩
  | .whileLoop hcond hb, c, hc => by
    obtain ⟨t, c₁, rfl, hk, -, hc₁⟩ := lexemes_eq_cons hc
    obtain ⟨lp, c₂, rfl, hlp, -, hc₂⟩ := lexemes_eq_cons hc₁
    obtain ⟨cc, cR, rfl, hcc, hcR⟩ := lexemes_eq_append hc₂
    obtain ⟨rp, cb, rfl, hrp, -, hcb⟩ := lexemes_eq_cons hcR
    obtain ⟨e', hee, hcy⟩ := hcond.parseCondition_complete hcc
    obtain ⟨b, hbd, hbs, hby⟩ := hb.complete hcb
    refine ⟨t, lp :: cc ++ rp :: cb, by simp,
      .whileLoop e' b.decls b.stmts (t.span.through b.closing.span),
      by simp [Stmt.erase, hee, hbd, hbs], fun eof rest _ => ?_⟩
    rw [parseStatement.eq_def]
    simp only [hk]
    refine ⟨_, rfl, ?_⟩
    rw [show lp :: cc ++ rp :: cb ++ rest = lp :: cc ++ rp :: (cb ++ rest) by simp]
    refine Reading.andThen_yields_of (hcy eof lp rp _ hlp hrp) fun _ => ?_
    exact (Reading.map_yields _ _).2 ⟨b, hby eof rest, rfl⟩
  | .repeatLoop hcond hb, c, hc => by
    obtain ⟨t, c₁, rfl, hk, -, hc₁⟩ := lexemes_eq_cons hc
    obtain ⟨lp, c₂, rfl, hlp, -, hc₂⟩ := lexemes_eq_cons hc₁
    obtain ⟨cc, cR, rfl, hcc, hcR⟩ := lexemes_eq_append hc₂
    obtain ⟨rp, cb, rfl, hrp, -, hcb⟩ := lexemes_eq_cons hcR
    obtain ⟨e', hee, hcy⟩ := hcond.parseCondition_complete hcc
    obtain ⟨b, hbd, hbs, hby⟩ := hb.complete hcb
    refine ⟨t, lp :: cc ++ rp :: cb, by simp,
      .repeatLoop e' b.decls b.stmts (t.span.through b.closing.span),
      by simp [Stmt.erase, hee, hbd, hbs], fun eof rest _ => ?_⟩
    rw [parseStatement.eq_def]
    simp only [hk]
    refine ⟨_, rfl, ?_⟩
    rw [show lp :: cc ++ rp :: cb ++ rest = lp :: cc ++ rp :: (cb ++ rest) by simp]
    refine Reading.andThen_yields_of (hcy eof lp rp _ hlp hrp) fun _ => ?_
    exact (Reading.map_yields _ _).2 ⟨b, hby eof rest, rfl⟩
  | .call ha, c, hc => by
    obtain ⟨cA, cS, rfl, hcA, hcS⟩ := lexemes_eq_append hc
    obtain ⟨rp, c₀, rfl, hrp, -, hc₀⟩ := lexemes_eq_cons hcS
    obtain ⟨semi, c₀', rfl, hsk, -, hc₀'⟩ := lexemes_eq_cons hc₀
    obtain rfl := lexemes_eq_nil hc₀'
    obtain ⟨n, c₁, rfl, hnk, hnx, hc₁⟩ := lexemes_eq_cons hcA
    obtain ⟨lp, c₂, rfl, hlp, -, hc₂⟩ := lexemes_eq_cons hc₁
    obtain ⟨args', hae, hay⟩ := ha.complete hc₂
    refine ⟨n, lp :: c₂ ++ [rp, semi], by simp,
      .call n.ident args' (n.span.through rp.span) (n.span.through semi.span),
      by simp [Stmt.erase, Ident.erase, Token.ident, hnx, hae], fun eof rest _ => ?_⟩
    rw [parseStatement.eq_def]
    simp only [hnk]
    refine ⟨_, rfl, ?_⟩
    rw [show lp :: c₂ ++ [rp, semi] ++ rest = lp :: (c₂ ++ rp :: semi :: rest) by simp]
    unfold identStatement
    simp only [hlp, if_true, Reading.after_yields]
    refine Reading.andThen_yields_of (hay eof (semi :: rest) rp hrp) fun _ => ?_
    exact expect_map_yields_of rest hsk
  | .retNone, c, hc => by
    obtain ⟨t, c₁, rfl, hk, -, hc₁⟩ := lexemes_eq_cons hc
    obtain ⟨semi, c₂, rfl, hsk, -, hc₂⟩ := lexemes_eq_cons hc₁
    obtain rfl := lexemes_eq_nil hc₂
    refine ⟨t, [semi], rfl, .ret none (t.span.through semi.span), by simp [Stmt.erase],
      fun eof rest _ => ?_⟩
    rw [parseStatement.eq_def]
    simp only [hk]
    refine ⟨_, rfl, ?_⟩
    rw [if_pos (by simpa [current] using hsk)]
    exact expect_map_yields_of rest hsk
  | .retSome hv, c, hc => by
    obtain ⟨cA, cS, rfl, hcA, hcS⟩ := lexemes_eq_append hc
    obtain ⟨semi, c₀, rfl, hsk, -, hc₀⟩ := lexemes_eq_cons hcS
    obtain rfl := lexemes_eq_nil hc₀
    obtain ⟨t, c₁, rfl, hk, -, hc₁⟩ := lexemes_eq_cons hcA
    obtain ⟨v', hve, hvy⟩ := hv.parseExpr_complete hc₁
    refine ⟨t, c₁ ++ [semi], by simp, .ret (some v') (t.span.through semi.span),
      by simp [Stmt.erase, hve], fun eof rest _ => ?_⟩
    rw [parseStatement.eq_def]
    simp only [hk]
    refine ⟨_, rfl, ?_⟩
    -- the value starts with a token that starts an operand, not `;`
    have hcur : (current eof (c₁ ++ [semi] ++ rest)).kind ≠ .semicolon := by
      obtain ⟨x, w', hw, hx⟩ := hv.head
      cases c₁ with
      | nil => exact absurd (hc₁.trans hw) (by simp)
      | cons u c₁ =>
        simp only [lexemes_cons, hw, List.cons.injEq] at hc₁
        rw [← hc₁.1] at hx
        simp only [current, List.cons_append, List.headD_cons]
        intro hu
        rw [hu] at hx
        exact absurd hx (by simp [startsOperand])
    rw [if_neg hcur, show c₁ ++ [semi] ++ rest = c₁ ++ semi :: rest by simp]
    refine Reading.andThen_yields_of (hvy eof semi rest (.inl hsk)) fun _ => ?_
    exact expect_map_yields_of rest hsk

/-- Statements of the grammar, before `}` or the end, are read by the loop over
a block's statements. -/
theorem Grammar.StmtsOf.complete {w : List Lexeme} {ss : List Stmt} :
    StmtsOf true w ss → ∀ {c : List Token}, lexemes c = w →
      ∃ ss', ss'.map Stmt.erase = ss.map Stmt.erase ∧ ∀ eof rest acc,
        (∀ u ∈ rest.head?, u.kind = .rcurly) → (stmtLoop eof acc (c ++ rest)).Yields (acc ++ ss') rest
  | .nil, c, hc => by
    obtain rfl := lexemes_eq_nil hc
    refine ⟨[], rfl, fun eof rest acc hrest => ?_⟩
    rw [List.nil_append, List.append_nil, stmtLoop_stop hrest]
    exact Reading.ok_yields.2 ⟨rfl, rfl⟩
  | .cons hs hss, c, hc => by
    obtain ⟨c₁, c₂, rfl, hc₁, hc₂⟩ := lexemes_eq_append hc
    obtain ⟨t, c₁', rfl, st', hste, hy⟩ := hs.complete hc₁
    obtain ⟨ss', hsse, hys⟩ := hss.complete hc₂
    refine ⟨st' :: ss', by simp [hste, hsse], fun eof rest acc hrest => ?_⟩
    -- the statement starts with a statement's token, and is followed by another statement or `}`
    have ht : startsStatement t.kind := by
      obtain ⟨x, w', hw, hx⟩ := hs.head
      simp only [lexemes_cons, hw, List.cons.injEq] at hc₁
      rw [← hc₁.1] at hx
      exact hx
    have hend : EndsIf (c₂ ++ rest) := by
      intro u hu
      cases c₂ with
      | nil =>
        rw [hrest u hu]
        decide
      | cons v c₂ =>
        simp only [List.cons_append, List.head?_cons, Option.mem_def, Option.some.injEq] at hu
        subst hu
        have hv := hss.head (v.kind, v.text) (by simp [← hc₂])
        intro he
        rw [he] at hv
        exact absurd hv (by simp [startsStatement])
    obtain ⟨rd, hrd, hyrd⟩ := hy eof (c₂ ++ rest) fun _ => hend
    have hk : t.kind ≠ .rcurly := by
      intro h
      rw [h] at ht
      exact absurd ht (by decide)
    rw [show t :: c₁' ++ c₂ ++ rest = t :: (c₁' ++ (c₂ ++ rest)) by simp]
    simpa using stmtLoop_cons_continues hk hrd hyrd _ _ (hys eof rest (acc ++ [st']) hrest)

/-- A block of the grammar is read as a block. -/
theorem Grammar.BlockOf.complete {w : List Lexeme} {ds : List VarDecl} {ss : List Stmt} :
    BlockOf true w ds ss → ∀ {c : List Token}, lexemes c = w →
      ∃ b : Block, b.decls.map VarDecl.erase = ds.map VarDecl.erase ∧
        b.stmts.map Stmt.erase = ss.map Stmt.erase ∧
        ∀ eof rest, (parseBlock eof (c ++ rest)).Yields b rest
  | .mk hds hss, c, hc => by
    obtain ⟨cA, cR, rfl, hcA, hcR⟩ := lexemes_eq_append hc
    obtain ⟨rc, c₀, rfl, hrc, -, hc₀⟩ := lexemes_eq_cons hcR
    obtain rfl := lexemes_eq_nil hc₀
    obtain ⟨cB, c₂, rfl, hcB, hc₂⟩ := lexemes_eq_append hcA
    obtain ⟨lc, c₁, rfl, hlc, -, hc₁⟩ := lexemes_eq_cons hcB
    obtain ⟨ds', hdse, hyd⟩ := hds.complete hc₁
    obtain ⟨ss', hsse, hys⟩ := hss.complete hc₂
    refine ⟨⟨ds', ss', lc, rc⟩, hdse, hsse, fun eof rest => ?_⟩
    -- the declarations stop at the first statement, or at `}`
    have hdecl : EndsDecls (c₂ ++ rc :: rest) := by
      intro u hu
      cases c₂ with
      | nil =>
        simp only [List.nil_append, List.head?_cons, Option.mem_def, Option.some.injEq] at hu
        subst hu
        simp [declStart?, baseType?, hrc]
      | cons v c₂ =>
        simp only [List.cons_append, List.head?_cons, Option.mem_def, Option.some.injEq] at hu
        subst hu
        have hv := hss.head (v.kind, v.text) (by simp [← hc₂])
        simp only at hv
        unfold declStart? baseType?
        split
        · rename_i hs
          rw [hs] at hv
          exact absurd hv (by decide)
        · split <;> first | rfl | (rename_i hb; rw [hb] at hv; exact absurd hv (by decide))
    rw [show lc :: c₁ ++ c₂ ++ [rc] ++ rest = lc :: (c₁ ++ (c₂ ++ rc :: rest)) by simp, parseBlock,
      if_pos hlc, Reading.after_yields]
    refine Reading.andThen_yields_of (hyd eof _ [] hdecl).1 fun _ => ?_
    refine Reading.andThen_yields_of (hys eof (rc :: rest) [] (by simp [hrc])) fun _ => ?_
    exact expect_map_yields_of rest hrc

end

end EggFront
