import EggFront.Proofs.Print.RoundTrip
import EggFront.Syntax.Names

/-!
# The parser keeps every name, once and in order

Each name in a tree the parser builds is read from one identifier token, with
that token's text and span, and each identifier token it reads becomes one name:
the names of a parsed program (`Program.names`) are the names its tokens spell
(`Token.namesOf`), in the order of the tokens (`Program.parse_names`).

The grammar cannot say this, since it knows words and not spans, so the proof
follows the readers once more, as the soundness proofs do, with one notion in
place of the grammar: a reading *traces* `N` after `pre` when every clean
reading of it read tokens whose names, after the names `pre` read before, are
the names `N` gives of what it answers (`Reading.Traces`). Traces compose along
`andThen`, `map` and `after` as readings do, so each reader's lemma only says
which reader comes after which.
-/

namespace EggFront

/-! ## The names of tokens -/

/-- The names the tokens spell: one for each identifier token, in order. -/
def Token.namesOf (ts : List Token) : List Ident :=
  (ts.filter fun t => t.kind = .ident).map Token.ident

namespace Token

variable {t : Token}

@[simp] theorem namesOf_nil : namesOf [] = [] := rfl

@[simp] theorem namesOf_append (a b : List Token) : namesOf (a ++ b) = namesOf a ++ namesOf b := by
  simp [namesOf]

theorem namesOf_ident (h : t.kind = .ident) : namesOf [t] = [t.ident] := by
  simp [namesOf, h]

theorem namesOf_other (h : t.kind ≠ .ident) : namesOf [t] = [] := by
  simp [namesOf, h]

end Token

theorem Expr.namesOf_append (a b : List Expr) :
    Expr.namesOf (a ++ b) = Expr.namesOf a ++ Expr.namesOf b := by
  induction a with
  | nil => rfl
  | cons e a ih => simp [Expr.namesOf, ih]

theorem Stmt.namesOf_append (a b : List Stmt) :
    Stmt.namesOf (a ++ b) = Stmt.namesOf a ++ Stmt.namesOf b := by
  induction a with
  | nil => rfl
  | cons s a ih => simp [Stmt.namesOf, ih]

/-! ## Readings that trace names -/

namespace Reading

variable {ts : List Token} {α β : Type} {pre : List Ident} {N : β → List Ident}

/-- Every clean reading of `r` read tokens whose names, after `pre`, are the
names `N` gives of what it answers. -/
def Traces (r : Reading ts α) (pre : List Ident) (N : α → List Ident) : Prop :=
  ∀ a rest, r.Yields a rest → ∃ c, ts = c ++ rest ∧ N a = pre ++ Token.namesOf c

theorem Traces.congr {r : Reading ts α} {pre' : List Ident} {M N : α → List Ident}
    (h : r.Traces pre M) (hp : pre' = pre) (hN : ∀ a, N a = M a) : r.Traces pre' N := by
  intro a rest hy
  obtain ⟨c, hts, hM⟩ := h a rest hy
  exact ⟨c, hts, by rw [hN, hM, hp]⟩

theorem traces_ok {a : β} (h : N a = pre) : (Reading.ok a ts).Traces pre N := by
  intro b rest hy
  obtain ⟨rfl, rfl⟩ := ok_yields.1 hy
  exact ⟨[], rfl, by simp [h]⟩

theorem traces_fail (e : SyntaxError) : (Reading.fail e ts : Reading ts β).Traces pre N :=
  fun _ _ hy => absurd hy fail_yields

theorem Traces.after {r : Reading ts β} (t : Token) (h : r.Traces (pre ++ Token.namesOf [t]) N) :
    (r.after t).Traces pre N := by
  intro a rest hy
  obtain ⟨c, hts, hN⟩ := h a rest hy
  refine ⟨t :: c, by rw [hts]; rfl, ?_⟩
  rw [hN, List.append_assoc, ← Token.namesOf_append]
  rfl

theorem Traces.after_other {r : Reading ts β} {t : Token} (ht : t.kind ≠ .ident)
    (h : r.Traces pre N) : (r.after t).Traces pre N :=
  Traces.after t (by rwa [Token.namesOf_other ht, List.append_nil])

theorem Traces.after_ident {r : Reading ts β} {t : Token} (ht : t.kind = .ident)
    (h : r.Traces (pre ++ [t.ident]) N) : (r.after t).Traces pre N :=
  Traces.after t (by rwa [Token.namesOf_ident ht])

theorem Traces.note {r : Reading ts β} (es : List SyntaxError) (h : r.Traces pre N) :
    (r.note es).Traces pre N :=
  fun a rest hy => h a rest ((note_yields es r).1 hy).2

theorem Traces.map {r : Reading ts α} {M : α → List Ident} {f : α → β} (h : r.Traces pre M)
    (hf : ∀ a, N (f a) = M a) : (r.map f).Traces pre N := by
  intro b rest hy
  obtain ⟨a, ha, rfl⟩ := (map_yields f r).1 hy
  obtain ⟨c, hts, hM⟩ := h a rest ha
  exact ⟨c, hts, by rw [hf, hM]⟩

/-- What a reading and the one after it read, one after the other. -/
theorem Traces.andThen {r : Reading ts α} {M : α → List Ident}
    {k : (a : α) → (s : List Token) → s <:+ ts → Reading s β} (h : r.Traces pre M)
    (hk : ∀ a s hs, r.Yields a s → (k a s hs).Traces (M a) N) : (r.andThen k).Traces pre N := by
  intro b rest hy
  obtain ⟨a, s, hs, ha, hkb⟩ := hy.of_andThen
  obtain ⟨c₁, hts, hM⟩ := h a s ha
  obtain ⟨c₂, hs', hN⟩ := hk a s hs ha b rest hkb
  exact ⟨c₁ ++ c₂, by rw [hts, hs', List.append_assoc],
    by rw [hN, hM, Token.namesOf_append, List.append_assoc]⟩

end Reading

open Reading

/-! ## Single tokens -/

section Tokens

variable {eof : Token} {ts : List Token} {pre : List Ident}

/-- A token of any kind but a name adds no name. -/
theorem expect_traces {N : Token → List Ident} {k : TokenKind} (hk : k ≠ .ident)
    (hN : ∀ t, N t = pre) : (expect eof k ts).Traces pre N := by
  intro t rest hy
  cases ts with
  | nil =>
    simp only [expect] at hy
    split at hy
    · obtain ⟨rfl, rfl⟩ := ok_yields.1 hy
      exact ⟨[], rfl, by simp [hN]⟩
    · exact absurd hy fail_yields
  | cons u r =>
    simp only [expect] at hy
    split at hy
    · rename_i hu
      obtain ⟨h₁, rfl, -⟩ := hy
      cases h₁
      exact ⟨[t], rfl, by rw [hN, Token.namesOf_other (hu ▸ hk), List.append_nil]⟩
    · exact absurd hy fail_yields

/-- A name read is the name of its token. -/
theorem expectIdent_traces (heof : eof.kind = .eof) :
    (expectIdent eof ts).Traces pre (pre ++ [·]) := by
  intro n rest hy
  obtain ⟨t, rfl, ht, rfl⟩ := expectIdent_yields heof hy
  exact ⟨[t], rfl, by rw [Token.namesOf_ident ht]; rfl⟩

end Tokens

/-! ## Expressions -/

section Expressions

variable {eof t : Token}

theorem Infix.ne_ident {op : Infix} (h : Infix.ofKind? t.kind = some op) : t.kind ≠ .ident := by
  intro hk
  simp [hk, Infix.ofKind?] at h

theorem unOp_ne_ident {op : UnOp} (h : unOp? t.kind = some op) : t.kind ≠ .ident := by
  intro hk
  simp [hk, unOp?] at h

/-- The fields after a location are names after its own. -/
theorem locRest_traces (heof : eof.kind = .eof) (base : Loc) (ts : List Token) (pre : List Ident) :
    (locRest eof base ts).Traces (pre ++ base.names) (pre ++ ·.names) := by
  fun_induction locRest eof base ts generalizing pre with
  | case1 base t r hdot ih =>
    refine .after_other (by rw [hdot]; decide) (.andThen (expectIdent_traces heof) fun n s hs _ => ?_)
    exact (ih n s hs pre).congr (by simp [Loc.names]) fun _ => rfl
  | case2 => exact traces_ok rfl
  | case3 => exact traces_ok rfl

/-- A clean reading of an operand, an expression or a call's arguments on the
last tokens only operates the first ones: these are the lengths the readers
recurse on. -/
theorem parsePrefix_rest_lt (heof : eof.kind = .eof) {ts rest : List Token} {e : Expr}
    (h : (parsePrefix eof ts).Yields e rest) : rest.length < ts.length := by
  obtain ⟨c, hts, hw⟩ := parsePrefix_reads heof (fun r _ => (expr_readers_sound heof r).1)
    (fun r _ => (expr_readers_sound heof r).2.2.1) e rest h
  exact length_lt_of_consumed hts hw.ne_nil

theorem parseExpr_rest_lt (heof : eof.kind = .eof) {m : Nat} {ts rest : List Token} {e : Expr}
    (h : (parseExpr eof m ts).Yields e rest) : rest.length < ts.length := by
  obtain ⟨c, hts, hw, -⟩ := parseExpr_sound heof h
  exact length_lt_of_consumed hts hw.ne_nil

/-- A clean reading of an expression, with any power, traces its names. -/
def ExprTraces (eof : Token) (ts : List Token) : Prop :=
  ∀ m pre, (parseExpr eof m ts).Traces pre (pre ++ ·.names)

/-- A clean reading of an operand traces its names. -/
def PrefixTraces (eof : Token) (ts : List Token) : Prop :=
  ∀ pre, (parsePrefix eof ts).Traces pre (pre ++ ·.names)

/-- A clean run of the loop from `left` traces the names of what it builds after
those of `left`. -/
def LoopTraces (eof : Token) (ts : List Token) : Prop :=
  ∀ m left flag pre, (infixLoop eof m left flag ts).Traces (pre ++ left.names) (pre ++ ·.names)

/-- A clean reading of a call's arguments traces their names. -/
def ArgsTraces (eof : Token) (ts : List Token) : Prop :=
  ∀ pre, (parseArgs eof ts).Traces pre (pre ++ Expr.namesOf ·.1)

/-- A clean reading of further arguments traces their names after those of `acc`. -/
def MoreArgsTraces (eof : Token) (ts : List Token) : Prop :=
  ∀ acc pre, (argsRest eof acc ts).Traces (pre ++ Expr.namesOf acc) (pre ++ Expr.namesOf ·.1)

theorem argsRest_trace_step {ts : List Token}
    (hexp : ∀ r : List Token, r.length < ts.length → ExprTraces eof r)
    (hmore : ∀ r : List Token, r.length < ts.length → MoreArgsTraces eof r) :
    MoreArgsTraces eof ts := by
  intro acc pre
  cases ts with
  | nil =>
    rw [argsRest_nil]
    exact .map (expect_traces (by decide) fun _ => rfl) fun _ => rfl
  | cons t r =>
    by_cases hk : t.kind = .comma
    · rw [argsRest_comma hk]
      refine .after_other (by rw [hk]; decide) (.andThen (hexp r (by simp) 0 _) fun a s hs _ => ?_)
      refine (hmore s (by have := hs.length_le; simp only [List.length_cons]; omega) (acc ++ [a]) pre).congr
        ?_ fun _ => rfl
      simp [Expr.namesOf_append, Expr.namesOf]
    · rw [argsRest_close hk]
      exact .map (expect_traces (by decide) fun _ => rfl) fun _ => rfl

theorem infixLoop_trace_step {ts : List Token}
    (hexp : ∀ r : List Token, r.length < ts.length → ExprTraces eof r)
    (hloop : ∀ r : List Token, r.length < ts.length → LoopTraces eof r) :
    LoopTraces eof ts := by
  intro m left flag pre
  cases ts with
  | nil =>
    rw [infixLoop_nil]
    exact traces_ok rfl
  | cons t r =>
    rcases hop : Infix.ofKind? t.kind with _ | op
    · rw [infixLoop_none hop]
      exact traces_ok rfl
    by_cases hlt : op.leftPower < m
    · rw [infixLoop_weak hop hlt]
      exact traces_ok rfl
    have hshort {s : List Token} (hs : s <:+ r) : s.length < (t :: r).length := by
      have := hs.length_le
      simp only [List.length_cons]
      omega
    cases op with
    | assign =>
      rw [infixLoop_assign hop hlt]
      refine .after_other (Infix.ne_ident hop) (.andThen (hexp r (by simp) _ _) fun right s hs _ => ?_)
      cases hl : left.asLoc? with
      | none => exact traces_fail _
      | some target =>
        -- the target keeps the names of the expression it was read as
        refine (hloop s (hshort hs) m _ false pre).congr ?_ fun _ => rfl
        simp [Expr.eq_loc_of_asLoc hl, Expr.names]
    | binary b =>
      by_cases hc : b.isComparison = true ∧ flag = true
      · obtain ⟨hc, rfl⟩ := hc
        rw [infixLoop_chained hop hlt hc]
        exact traces_fail _
      rw [infixLoop_binary hop hlt hc]
      refine .after_other (Infix.ne_ident hop) (.andThen (hexp r (by simp) _ _) fun right s hs _ => ?_)
      refine (hloop s (hshort hs) m _ b.isComparison pre).congr ?_ fun _ => rfl
      simp [Expr.names]

theorem parsePrefix_trace_step (heof : eof.kind = .eof) {ts : List Token}
    (hexp : ∀ r : List Token, r.length < ts.length → ExprTraces eof r)
    (hargs : ∀ r : List Token, r.length < ts.length → ArgsTraces eof r) :
    PrefixTraces eof ts := by
  intro pre
  fun_cases parsePrefix eof ts with
  | case1 =>
    rw [parsePrefix.eq_def]
    exact traces_fail _
  | case2 t r op hop =>
    rw [parsePrefix_unary hop]
    exact .after_other (unOp_ne_ident hop) (.map (hexp r (by simp) _ pre) fun _ => rfl)
  | case3 t r _ hk =>
    rw [parsePrefix_intLit hk]
    exact .after_other (by rw [hk]; decide) (traces_ok (by simp [Expr.names]))
  | case4 t r _ hk =>
    rw [parsePrefix_stringLit hk]
    exact .after_other (by rw [hk]; decide) (traces_ok (by simp [Expr.names]))
  | case5 t r _ hk =>
    rw [parsePrefix_true hk]
    exact .after_other (by rw [hk]; decide) (traces_ok (by simp [Expr.names]))
  | case6 t r _ hk =>
    rw [parsePrefix_false hk]
    exact .after_other (by rw [hk]; decide) (traces_ok (by simp [Expr.names]))
  | case7 t r _ hk =>
    rw [parsePrefix_paren hk]
    exact .after_other (by rw [hk]; decide) (.andThen (hexp r (by simp) 0 pre) fun e s _ _ =>
      .map (expect_traces (by decide) fun _ => rfl) fun _ => rfl)
  | case8 t _ hk u r hu =>
    rw [parsePrefix_call hk hu]
    exact .after_ident hk (.after_other (by rw [hu]; decide)
      (.map (hargs r (by simp only [List.length_cons]; omega) _) fun a => by cases a; simp [Expr.names]))
  | case9 t _ hk u r hu =>
    rw [parsePrefix_loc hk hu]
    exact .after_ident hk (.map (locRest_traces heof _ _ pre) fun _ => rfl)
  | case10 t _ hk =>
    rw [parsePrefix_var hk]
    exact .after_ident hk (traces_ok (by simp [Expr.names, Loc.names]))
  | case11 t r hop =>
    rw [parsePrefix.eq_def]
    simp only [hop]
    exact traces_fail _

theorem parseExpr_trace_step (heof : eof.kind = .eof) {ts : List Token} (hpre : PrefixTraces eof ts)
    (hloop : ∀ r : List Token, r.length < ts.length → LoopTraces eof r) :
    ExprTraces eof ts := by
  intro m pre
  rw [parseExpr]
  -- the operand read first leaves fewer tokens for the loop
  exact .andThen (hpre pre) fun left s _ hy => hloop s (parsePrefix_rest_lt heof hy) m left false pre

theorem parseArgs_trace_step (heof : eof.kind = .eof) {ts : List Token} (hexp : ExprTraces eof ts)
    (hmore : ∀ r : List Token, r.length < ts.length → MoreArgsTraces eof r) :
    ArgsTraces eof ts := by
  intro pre
  by_cases hk : (current eof ts).kind = .rparen
  · rw [parseArgs_close hk]
    exact .map (expect_traces (by decide) fun _ => rfl) fun _ => by simp [Expr.namesOf]
  · rw [parseArgs_some hk]
    exact .andThen (hexp 0 pre) fun a s _ hy =>
      (hmore s (parseExpr_rest_lt heof hy) [a] pre).congr (by simp [Expr.namesOf]) fun _ => rfl

/-- The expression readers trace names, for every list of tokens, by induction on
its length, as in `expr_readers_sound`. -/
theorem expr_readers_trace (heof : eof.kind = .eof) (ts : List Token) :
    ExprTraces eof ts ∧ LoopTraces eof ts ∧ ArgsTraces eof ts ∧ MoreArgsTraces eof ts := by
  suffices ∀ n (ts : List Token), ts.length = n →
      ExprTraces eof ts ∧ LoopTraces eof ts ∧ ArgsTraces eof ts ∧ MoreArgsTraces eof ts from
    this _ ts rfl
  intro n
  induction n using Nat.strongRecOn with
  | ind n ih =>
    intro ts hn
    subst hn
    have hexp r (hr : r.length < ts.length) := (ih _ hr r rfl).1
    have hloop r (hr : r.length < ts.length) := (ih _ hr r rfl).2.1
    have hargs r (hr : r.length < ts.length) := (ih _ hr r rfl).2.2.1
    have hmore r (hr : r.length < ts.length) := (ih _ hr r rfl).2.2.2
    have hexpr := parseExpr_trace_step heof (parsePrefix_trace_step heof hexp hargs) hloop
    exact ⟨hexpr, infixLoop_trace_step hexp hloop, parseArgs_trace_step heof hexpr hmore,
      argsRest_trace_step hexp hmore⟩

theorem parseExpr_traces (heof : eof.kind = .eof) (m : Nat) (ts : List Token) (pre : List Ident) :
    (parseExpr eof m ts).Traces pre (pre ++ ·.names) :=
  (expr_readers_trace heof ts).1 m pre

theorem parseArgs_traces (heof : eof.kind = .eof) (ts : List Token) (pre : List Ident) :
    (parseArgs eof ts).Traces pre (pre ++ Expr.namesOf ·.1) :=
  (expr_readers_trace heof ts).2.2.1 pre

end Expressions

/-! ## Declarations and statements -/

section Statements

variable {eof t : Token}

theorem baseType_names {ty : TypeExpr} (h : baseType? t = some ty) :
    ty.names = [] ∧ t.kind ≠ .ident := by
  unfold baseType? at h
  split at h <;> simp only [Option.some.injEq, reduceCtorEq] at h <;> subst h <;> rename_i hk <;>
    simp [TypeExpr.names, hk]

theorem declStart_ne_ident {st : DeclStart} (h : declStart? t = some st) : t.kind ≠ .ident := by
  rcases declStart_eq h with ⟨hk, -⟩ | ⟨ty, hty, -⟩
  · rw [hk]
    decide
  · exact (baseType_names hty).2

theorem parseVarDecl_traces (heof : eof.kind = .eof) {st : DeclStart} (hst : declStart? t = some st)
    (r : List Token) (pre : List Ident) : (parseVarDecl eof st r).Traces pre (pre ++ ·.names) := by
  -- after the type, both forms read a name and a semicolon
  have hname (ty : TypeExpr) (s : List Token) :
      ((expectIdent eof s).andThen fun n s' _ => (expect eof .semicolon s').map fun semi =>
        (⟨ty, n, st.span.through semi.span⟩ : VarDecl)).Traces (pre ++ ty.names) (pre ++ ·.names) :=
    .andThen (expectIdent_traces heof) fun _ _ _ _ =>
      .map (expect_traces (by decide) fun _ => rfl) fun _ => by simp [VarDecl.names]
  rcases declStart_eq hst with ⟨-, rfl⟩ | ⟨ty, hty, rfl⟩
  · exact .andThen (.map (expectIdent_traces heof) fun _ => rfl) fun ty s _ _ => hname ty s
  · -- the base type is read already, and holds no name
    unfold parseVarDecl
    dsimp only
    exact .andThen (traces_ok (by simp [(baseType_names hty).1])) fun ty s _ _ => hname ty s

theorem blockDecls_traces (heof : eof.kind = .eof) (acc : List VarDecl) (ts : List Token)
    (pre : List Ident) :
    (blockDecls eof acc ts).Traces (pre ++ acc.flatMap VarDecl.names) (pre ++ ·.flatMap VarDecl.names) := by
  fun_induction blockDecls eof acc ts generalizing pre with
  | case1 acc t r st hst d s es hs hpv ih =>
    -- the declaration was read cleanly, and the loop went on after its tokens
    intro ds rest hy
    rw [after_yields, note_yields, widen_yields] at hy
    obtain ⟨rfl, hy⟩ := hy
    have hd : (parseVarDecl eof st r).Yields d s := by rw [hpv]; exact ⟨rfl, rfl, rfl⟩
    obtain ⟨c₁, hr, hN₁⟩ := parseVarDecl_traces heof hst r [] d s hd
    obtain ⟨c₂, hs', hN₂⟩ := ih pre ds rest hy
    refine ⟨t :: c₁ ++ c₂, by rw [hr, hs']; simp, ?_⟩
    rw [hN₂, show t :: c₁ ++ c₂ = [t] ++ c₁ ++ c₂ from rfl, Token.namesOf_append,
      Token.namesOf_append, Token.namesOf_other (declStart_ne_ident hst)]
    simp_all
  | case2 =>
    -- a broken declaration leaves its error behind
    intro ds rest hy
    simp at hy
  | case3 | case4 => exact traces_ok rfl

theorem parseLoc_traces (heof : eof.kind = .eof) (ts : List Token) (pre : List Ident) :
    (parseLoc eof ts).Traces pre (pre ++ ·.names) :=
  .andThen (expectIdent_traces heof) fun n s _ _ => locRest_traces heof (.var n) s pre

theorem parseCondition_traces (heof : eof.kind = .eof) (ts : List Token) (pre : List Ident) :
    (parseCondition eof ts).Traces pre (pre ++ ·.names) :=
  .andThen (expect_traces (by decide) fun _ => rfl) fun _ s _ _ =>
    .andThen (parseExpr_traces heof 0 s pre) fun _ _ _ _ =>
      .map (expect_traces (by decide) fun _ => rfl) fun _ => rfl

theorem afterLocation_traces (heof : eof.kind = .eof) (r : List Token) (pre : List Ident) :
    (identStatement.afterLocation eof t r).Traces (pre ++ [t.ident]) (pre ++ ·.names) := by
  unfold identStatement.afterLocation
  refine .andThen (locRest_traces heof (.var t.ident) r pre) fun target s _ _ => ?_
  -- the token after the location says what is done to it
  cases s with
  | nil => exact traces_fail _
  | cons v s =>
    simp only
    split
    · rename_i hv
      exact .after_other (by rw [hv]; decide)
        (.map (expect_traces (by decide) fun _ => rfl) fun _ => by simp [Stmt.names])
    · rename_i hv
      exact .after_other (by rw [hv]; decide)
        (.map (expect_traces (by decide) fun _ => rfl) fun _ => by simp [Stmt.names])
    · rename_i hv
      exact .after_other (by rw [hv]; decide) (.andThen (parseExpr_traces heof 0 s _) fun _ _ _ _ =>
        .map (expect_traces (by decide) fun _ => rfl) fun _ => by simp [Stmt.names])
    · exact traces_fail _

theorem identStatement_traces (heof : eof.kind = .eof) (r : List Token) (pre : List Ident) :
    (identStatement eof t r).Traces (pre ++ [t.ident]) (pre ++ ·.names) := by
  unfold identStatement
  cases r with
  | nil => exact afterLocation_traces heof [] pre
  | cons u r =>
    simp only
    split
    · rename_i hlp
      exact .after_other (by rw [hlp]; decide) (.andThen (parseArgs_traces heof r _)
        fun a _ _ _ => by
          cases a
          exact .map (expect_traces (by decide) fun _ => rfl) fun _ => by simp [Stmt.names])
    · exact afterLocation_traces heof _ pre

/-- A clean reading of a statement after its first token traces the statement's
names after that token's. -/
def StatementTraces (eof : Token) (ts : List Token) : Prop :=
  ∀ t r rd pre, ts = t :: r → parseStatement eof t r = .ok rd →
    rd.Traces (pre ++ Token.namesOf [t]) (pre ++ ·.names)

/-- A clean run of the statement loop traces the names of the statements after
those of `acc`. -/
def StmtsTraces (eof : Token) (ts : List Token) : Prop :=
  ∀ acc pre, (stmtLoop eof acc ts).Traces (pre ++ Stmt.namesOf acc) (pre ++ Stmt.namesOf ·)

/-- A clean reading of a block traces the names of its declarations and statements. -/
def BlockTraces (eof : Token) (ts : List Token) : Prop :=
  ∀ pre, (parseBlock eof ts).Traces pre
    fun b => pre ++ b.decls.flatMap VarDecl.names ++ Stmt.namesOf b.stmts

theorem parseStatement_trace_step (heof : eof.kind = .eof) {ts : List Token}
    (hblock : ∀ s : List Token, s.length < ts.length → BlockTraces eof s) :
    StatementTraces eof ts := by
  intro t r rd pre hts hrd
  subst hts
  have hblock' {s : List Token} (hs : s <:+ r) : BlockTraces eof s :=
    hblock s (by have := hs.length_le; simp only [List.length_cons]; omega)
  rw [parseStatement.eq_def] at hrd
  split at hrd
  · -- cin >> location ;
    rename_i hk
    cases hrd
    rw [Token.namesOf_other (by rw [hk]; decide), List.append_nil]
    exact .andThen (expect_traces (by decide) fun _ => rfl) fun _ s _ _ =>
      .andThen (parseLoc_traces heof s pre) fun _ _ _ _ =>
        .map (expect_traces (by decide) fun _ => rfl) fun _ => by simp [Stmt.names]
  · -- cout << expression ;
    rename_i hk
    cases hrd
    rw [Token.namesOf_other (by rw [hk]; decide), List.append_nil]
    exact .andThen (expect_traces (by decide) fun _ => rfl) fun _ s _ _ =>
      .andThen (parseExpr_traces heof 0 s pre) fun _ _ _ _ =>
        .map (expect_traces (by decide) fun _ => rfl) fun _ => by simp [Stmt.names]
  · -- if, with or without else
    rename_i hk
    cases hrd
    rw [Token.namesOf_other (by rw [hk]; decide), List.append_nil]
    refine .andThen (parseCondition_traces heof r pre) fun c s hs _ =>
      .andThen (hblock' hs _) fun b s' hs' _ => ?_
    cases s' with
    | nil => exact traces_ok (by simp [Stmt.names])
    | cons u s'' =>
      simp only
      split
      · rename_i hu
        exact .after_other (by rw [hu]; decide)
          (.map (hblock' ((List.suffix_cons u s'').trans (hs'.trans hs)) _) fun _ => by simp [Stmt.names])
      · exact traces_ok (by simp [Stmt.names])
  · -- while
    rename_i hk
    cases hrd
    rw [Token.namesOf_other (by rw [hk]; decide), List.append_nil]
    exact .andThen (parseCondition_traces heof r pre) fun c s hs _ =>
      .map (hblock' hs _) fun _ => by simp [Stmt.names]
  · -- repeat
    rename_i hk
    cases hrd
    rw [Token.namesOf_other (by rw [hk]; decide), List.append_nil]
    exact .andThen (parseCondition_traces heof r pre) fun c s hs _ =>
      .map (hblock' hs _) fun _ => by simp [Stmt.names]
  · -- return, with or without a value
    rename_i hk
    cases hrd
    rw [Token.namesOf_other (by rw [hk]; decide), List.append_nil]
    split
    · exact .map (expect_traces (by decide) fun _ => rfl) fun _ => by simp [Stmt.names]
    · exact .andThen (parseExpr_traces heof 0 r pre) fun _ _ _ _ =>
        .map (expect_traces (by decide) fun _ => rfl) fun _ => by simp [Stmt.names]
  · -- a statement that starts with a name
    rename_i hk
    cases hrd
    rw [Token.namesOf_ident hk]
    exact identStatement_traces heof r pre
  · -- no statement starts with any other token
    split at hrd <;> cases hrd

theorem stmtLoop_trace_step {ts : List Token} (hstmt : StatementTraces eof ts)
    (hloop : ∀ s : List Token, s.length < ts.length → StmtsTraces eof s) :
    StmtsTraces eof ts := by
  intro acc pre
  cases ts with
  | nil =>
    rw [stmtLoop]
    exact traces_ok rfl
  | cons t r =>
    intro ss rest hy
    rw [stmtLoop] at hy
    split at hy
    · obtain ⟨rfl, rfl⟩ := ok_yields.1 hy
      exact ⟨[], rfl, by simp⟩
    split at hy
    · -- no statement starts with the token: its error stays
      simp at hy
    · rename_i st s es hs hps
      simp only [after_yields, note_yields, widen_yields] at hy
      obtain ⟨rfl, hy⟩ := hy
      obtain ⟨c₁, hr, hN₁⟩ := hstmt t r _ [] rfl hps st s ⟨rfl, rfl, rfl⟩
      obtain ⟨c₂, hs', hN₂⟩ :=
        hloop s (by have := hs.length_le; simp only [List.length_cons]; omega) (acc ++ [st]) pre ss rest hy
      refine ⟨t :: c₁ ++ c₂, by rw [hr, hs']; simp, ?_⟩
      rw [hN₂, show t :: c₁ ++ c₂ = [t] ++ c₁ ++ c₂ from rfl, Token.namesOf_append,
        Token.namesOf_append, Stmt.namesOf_append]
      simp_all [Stmt.namesOf]
    · -- a broken statement leaves its error behind
      simp at hy

theorem parseBlock_trace_step (heof : eof.kind = .eof) {ts : List Token}
    (hloop : ∀ s : List Token, s.length < ts.length → StmtsTraces eof s) :
    BlockTraces eof ts := by
  intro pre
  cases ts with
  | nil =>
    rw [parseBlock]
    exact traces_fail _
  | cons t r =>
    rw [parseBlock]
    split
    · rename_i hk
      refine .after_other (by rw [hk]; decide) (.andThen (M := fun ds => pre ++ ds.flatMap VarDecl.names)
        ((blockDecls_traces heof [] r pre).congr (by simp) fun _ => rfl) fun ds s hs _ => ?_)
      have hss := hloop s (by have := hs.length_le; simp only [List.length_cons]; omega) []
        (pre ++ ds.flatMap VarDecl.names)
      exact .andThen (hss.congr (by simp [Stmt.namesOf]) fun _ => rfl) fun _ _ _ _ =>
        .map (expect_traces (by decide) fun _ => rfl) fun _ => rfl
    · exact traces_fail _

/-- The statement readers trace names, for every list of tokens, by induction on
its length, as in `stmt_readers_sound`. -/
theorem stmt_readers_trace (heof : eof.kind = .eof) (ts : List Token) :
    StatementTraces eof ts ∧ StmtsTraces eof ts ∧ BlockTraces eof ts := by
  suffices ∀ n (ts : List Token), ts.length = n →
      StatementTraces eof ts ∧ StmtsTraces eof ts ∧ BlockTraces eof ts from this _ ts rfl
  intro n
  induction n using Nat.strongRecOn with
  | ind n ih =>
    intro ts hn
    subst hn
    have hblock s (hs : s.length < ts.length) := (ih _ hs s rfl).2.2
    have hloop s (hs : s.length < ts.length) := (ih _ hs s rfl).2.1
    have hstmt := parseStatement_trace_step heof hblock
    exact ⟨hstmt, stmtLoop_trace_step hstmt hloop, parseBlock_trace_step heof hloop⟩

theorem parseBlock_traces (heof : eof.kind = .eof) (ts : List Token) (pre : List Ident) :
    (parseBlock eof ts).Traces pre fun b => pre ++ b.decls.flatMap VarDecl.names ++ Stmt.namesOf b.stmts :=
  (stmt_readers_trace heof ts).2.2 pre

end Statements

/-! ## Declarations and programs -/

section Programs

variable {eof t : Token}

theorem parseType_traces (ts : List Token) (pre : List Ident) :
    (parseType eof ts).Traces pre (pre ++ ·.names) := by
  cases ts with
  | nil =>
    rw [parseType]
    exact traces_fail _
  | cons t r =>
    rw [parseType]
    split
    · rename_i ty hty
      obtain ⟨hn, hk⟩ := baseType_names hty
      exact .after_other hk (traces_ok (by simp [hn]))
    · exact traces_fail _

theorem parseParam_traces (heof : eof.kind = .eof) (ts : List Token) (pre : List Ident) :
    (parseParam eof ts).Traces pre (pre ++ ·.names) :=
  .andThen (parseType_traces ts pre) fun _ _ _ _ =>
    .map (expectIdent_traces heof) fun _ => by simp [Param.names]

theorem paramsRest_traces (heof : eof.kind = .eof) (acc : List Param) (ts : List Token)
    (pre : List Ident) :
    (paramsRest eof acc ts).Traces (pre ++ acc.flatMap Param.names) (pre ++ ·.flatMap Param.names) := by
  fun_induction paramsRest eof acc ts generalizing pre with
  | case1 acc t r hk ih =>
    exact .after_other (by rw [hk]; decide) (.andThen (parseParam_traces heof r _) fun p s hs _ =>
      (ih p s hs pre).congr (by simp) fun _ => rfl)
  | case2 | case3 => exact .map (expect_traces (by decide) fun _ => rfl) fun _ => rfl

theorem parseParams_traces (heof : eof.kind = .eof) (ts : List Token) (pre : List Ident) :
    (parseParams eof ts).Traces pre (pre ++ ·.flatMap Param.names) := by
  refine .andThen (expect_traces (by decide) fun _ => rfl) fun _ s _ _ => ?_
  split
  · exact .map (expect_traces (by decide) fun _ => rfl) fun _ => by simp
  · exact .andThen (parseParam_traces heof s pre) fun p s' _ _ =>
      (paramsRest_traces heof [p] s' pre).congr (by simp) fun _ => rfl

theorem parseFnDecl_traces (heof : eof.kind = .eof) {ty : TypeExpr} (hty : baseType? t = some ty)
    (r : List Token) (pre : List Ident) : (parseFnDecl eof ty r).Traces pre (pre ++ ·.names) :=
  .andThen (expectIdent_traces heof) fun _ s _ _ =>
    .andThen (parseParams_traces heof s _) fun _ s' _ _ =>
      .map (parseBlock_traces heof s' _) fun _ => by simp [FnDecl.names, (baseType_names hty).1]

theorem fieldLoop_traces (heof : eof.kind = .eof) (acc : List VarDecl) (ts : List Token)
    (pre : List Ident) :
    (fieldLoop eof acc ts).Traces (pre ++ acc.flatMap VarDecl.names) (pre ++ ·.flatMap VarDecl.names) := by
  fun_induction fieldLoop eof acc ts generalizing pre with
  | case1 acc t r st hst ih =>
    exact .after_other (declStart_ne_ident hst) (.andThen (parseVarDecl_traces heof hst r _)
      fun d s hs _ => (ih d s hs pre).congr (by simp) fun _ => rfl)
  | case2 | case3 => exact traces_ok rfl

theorem parseStructDecl_traces (heof : eof.kind = .eof) (r : List Token) (pre : List Ident) :
    (parseStructDecl eof t r).Traces pre (pre ++ ·.names) := by
  refine .andThen (expectIdent_traces heof) fun n _ _ _ =>
    .andThen (expect_traces (by decide) fun _ => rfl) fun _ s' _ _ => ?_
  -- a report of an empty struct is noted and reading goes on
  refine .note _ (.andThen ((fieldLoop_traces heof [] s' (pre ++ [n])).congr (by simp) fun _ => rfl)
    fun _ _ _ _ => .andThen (expect_traces (by decide) fun _ => rfl) fun _ _ _ _ =>
      .map (expect_traces (by decide) fun _ => rfl) fun _ => ?_)
  simp [StructDecl.names]

theorem parseDecl_traces (heof : eof.kind = .eof) {r : List Token} {rd : Reading r Decl}
    (hrd : parseDecl eof t r = .ok rd) (pre : List Ident) :
    rd.Traces (pre ++ Token.namesOf [t]) (pre ++ ·.names) := by
  unfold parseDecl at hrd
  split at hrd
  · rename_i hk
    rw [Token.namesOf_other (by rw [hk]; decide), List.append_nil]
    split at hrd
    · cases hrd
      exact .map (parseStructDecl_traces heof r pre) fun _ => rfl
    · cases hrd
      exact .map (parseVarDecl_traces heof (t := t) (by simp [declStart?, hk]) r pre) fun _ => rfl
  · rename_i hk
    split at hrd
    · rename_i ty hty
      rw [Token.namesOf_other (baseType_names hty).2, List.append_nil]
      split at hrd
      · cases hrd
        exact .map (parseFnDecl_traces heof hty r pre) fun _ => rfl
      · cases hrd
        exact .map (parseVarDecl_traces heof (t := t) (by simp [declStart?, hk, hty]) r pre) fun _ => rfl
    · cases hrd

/-- A run of the declaration loop that ends with no error read declarations whose
names are those of the tokens, after those of `acc`. -/
theorem declLoop_names (heof : eof.kind = .eof) {acc ds : List Decl} {errs : List SyntaxError}
    {ts : List Token} (h : declLoop eof acc errs ts = (ds, [])) :
    ds.flatMap Decl.names = acc.flatMap Decl.names ++ Token.namesOf ts := by
  fun_induction declLoop eof acc errs ts with
  | case1 acc errs =>
    simp only [Prod.mk.injEq] at h
    obtain ⟨rfl, -⟩ := h
    simp
  | case2 acc errs t r _ e _ ih =>
    -- an error once recorded is never dropped
    have hnil := (declLoop_sound heof h).1
    simp at hnil
  | case3 acc errs t r _ d s es hs hpd ih =>
    obtain ⟨-, rfl⟩ := List.append_eq_nil_iff.1 (declLoop_sound heof h).1
    obtain ⟨c, hr, hN⟩ := parseDecl_traces heof hpd [] d s ⟨rfl, rfl, rfl⟩
    rw [ih h, hr, show t :: (c ++ s) = [t] ++ c ++ s from rfl, Token.namesOf_append,
      Token.namesOf_append]
    simp_all
  | case4 acc errs t r _ e s es hs hpd ih =>
    have hnil := (declLoop_sound heof h).1
    simp at hnil

/-- **The parser keeps every name, once and in order.** The names of a program
the parser reads are the names its tokens spell: one for each identifier token,
with its text and span, in the order of the tokens, which hold no end marker. -/
theorem Program.parse_names (heof : eof.kind = .eof) {ts : List Token} {p : Program}
    (hts : ∀ t ∈ ts, t.kind ≠ .eof) (h : Program.parse ts eof = .ok p) : p.names = Token.namesOf ts := by
  rw [Program.parse_of_unmarked hts] at h
  unfold Program.parseBefore at h
  split at h
  · rename_i ds hloop
    cases h
    simpa [Program.names] using declLoop_names heof hloop
  · cases h

end Programs

/-- **Names in source order.** On a text that scans and parses, the program's
names, with their spans, are the scan's identifier tokens, with theirs, in the
same order: no identifier is lost, none is counted twice. -/
theorem Program.names_match_identifier_tokens {file text : String} {p : Program}
    (h : (Program.ofSource file text).2 = .ok p) :
    p.names.map (fun i => (i.name, i.span)) =
      ((scan file text).tokens.filter fun t => t.kind = .ident).map fun t => (t.text, t.span) := by
  obtain ⟨-, hp⟩ := Program.ofSource_eq_ok.1 h
  rw [Program.parse_names (scanFrom_eof_kind _ _ _) (scanFrom_unmarked _ _ _) hp, Token.namesOf,
    List.map_map]
  rfl

theorem names_match_identifier_tokens_struct_field :
    ∃ p, (Program.ofSource "main.egg"
        "struct P \x7b int x; \x7d; int g(int a) \x7b struct P q; q.x = a; return g(q.x); \x7d").2 = .ok p ∧
      p.names.map (fun i => (i.name, i.span)) =
        ((scan "main.egg"
          "struct P \x7b int x; \x7d; int g(int a) \x7b struct P q; q.x = a; return g(q.x); \x7d").tokens.filter
            fun t => t.kind = .ident).map fun t => (t.text, t.span) := by
  have hok : ((Program.ofSource "main.egg"
      "struct P \x7b int x; \x7d; int g(int a) \x7b struct P q; q.x = a; return g(q.x); \x7d").2).isOk = true := by
    decide +kernel
  cases hp : (Program.ofSource "main.egg"
      "struct P \x7b int x; \x7d; int g(int a) \x7b struct P q; q.x = a; return g(q.x); \x7d").2 with
  | error e =>
    rw [hp] at hok
    cases hok
  | ok p => exact ⟨p, rfl, Program.names_match_identifier_tokens hp⟩

end EggFront
