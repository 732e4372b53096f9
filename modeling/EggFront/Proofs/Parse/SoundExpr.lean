import EggFront.Proofs.Parse.Steps

/-!
# Expressions the parser reads are expressions of the grammar

A clean reading of an expression with power `m` reads tokens that form an
expression of level `powerLevel m` (`Grammar.ExpOf` with targets in
parentheses allowed), denoting the tree it answers, and stops where no operator
binds as strongly as `m`.

## The loop

`infixLoop` joins operators to what it has built so far, `left`. What it keeps
true from one turn to the next is said by `Takes`: `left` is an expression of
some level `L`, and the operator at the front, if it binds strongly enough and
is not a second comparison, takes expressions of level `L` as its left operand.
A fresh operand has the top level 6, which every operator takes; after an
operator and its right operand, `Infix.leftLevel_le_level` gives it back,
because the right operand was read with the operator's right power and so
stopped before any operator that binds more strongly.

## Induction

The five readers call one another, each on tokens no more numerous than its
own and most on strictly fewer, so one induction on the number of tokens
carries them all: at each length the step lemmas below are applied in the
order `argsRest`, `infixLoop`, `parsePrefix`, `parseExpr`, `parseArgs`.
-/

namespace EggFront

open Grammar

variable {eof : Token}

/-! ## Locations -/

/-- Reading the fields after a location extends the location. -/
theorem locRest_sound (heof : eof.kind = .eof) {base l : Loc} {ts rest : List Token}
    {w : List Lexeme} (hb : LocOf w base) (h : (locRest eof base ts).Yields l rest) :
    ∃ c, ts = c ++ rest ∧ LocOf (w ++ lexemes c) l := by
  fun_induction locRest eof base ts generalizing w with
  | case1 base t r hdot ih =>
    rw [Reading.after_yields, Reading.andThen_yields] at h
    obtain ⟨n, hn, hrest⟩ := h
    obtain ⟨u, hr, hu, rfl⟩ := expectIdent_yields heof hn
    obtain ⟨c, hc, hl⟩ := ih _ _ (expectIdent eof r).suffix (LocOf.field (x := t.text) hb) hrest
    refine ⟨t :: u :: c, by rw [hr, hc]; rfl, ?_⟩
    simpa [hdot, hu] using hl
  | case2 base t r hdot =>
    obtain ⟨rfl, rfl⟩ := Reading.ok_yields.1 h
    exact ⟨[], rfl, by simpa using hb⟩
  | case3 base =>
    obtain ⟨rfl, rfl⟩ := Reading.ok_yields.1 h
    exact ⟨[], rfl, by simpa using hb⟩

/-- The parser takes an expression for an assignment target only when it is a
location. -/
theorem Expr.eq_loc_of_asLoc {e : Expr} {l : Loc} (h : e.asLoc? = some l) : e = .loc l := by
  cases e with
  | loc l' => simp only [Expr.asLoc?, Option.some.injEq] at h; rw [h]
  | _ => simp [Expr.asLoc?] at h

/-! ## What each reader answers for -/

/-- A clean reading of an expression with power `m` read an expression of level
`powerLevel m` and stopped where no operator binds as strongly. -/
def ExprReads (eof : Token) (ts : List Token) : Prop :=
  ∀ m e rest, (parseExpr eof m ts).Yields e rest →
    ∃ c, ts = c ++ rest ∧ ExpOf true (powerLevel m) (lexemes c) e ∧ Stops m rest

/-- A clean reading of an operand read an expression of the top level. -/
def PrefixReads (eof : Token) (ts : List Token) : Prop :=
  ∀ e rest, (parsePrefix eof ts).Yields e rest → ∃ c, ts = c ++ rest ∧ ExpOf true 6 (lexemes c) e

/-- The operator at the front of `ts`, if it binds at least as strongly as `m`
and is not a second comparison, takes expressions of level `L` as its left
operand. -/
def Takes (m : Nat) (flag : Bool) (L : Nat) (ts : List Token) : Prop :=
  ∀ t ∈ ts.head?, ∀ op, Infix.ofKind? t.kind = some op → m ≤ op.leftPower →
    ¬(op.isComparison = true ∧ flag = true) → op.leftLevel ≤ L

/-- A clean run of the loop from an operand of level `L` read the rest of an
expression of level `powerLevel m`. -/
def LoopReads (eof : Token) (ts : List Token) : Prop :=
  ∀ m left flag L c₀ e rest, ExpOf true L (lexemes c₀) left → powerLevel m ≤ L →
    flag = decide (L = 3) → Takes m flag L ts → (infixLoop eof m left flag ts).Yields e rest →
    ∃ c, ts = c ++ rest ∧ ExpOf true (powerLevel m) (lexemes (c₀ ++ c)) e ∧ Stops m rest

/-- A clean reading of a call's arguments read arguments and the closing `)`. -/
def ArgsReads (eof : Token) (ts : List Token) : Prop :=
  ∀ args close rest, (parseArgs eof ts).Yields (args, close) rest →
    ∃ c, ts = c ++ close :: rest ∧ close.kind = .rparen ∧ ArgsOf true (lexemes c) args

/-- A clean reading of further arguments read `, argument` pieces and the closing `)`. -/
def MoreArgsReads (eof : Token) (ts : List Token) : Prop :=
  ∀ acc args close rest, (argsRest eof acc ts).Yields (args, close) rest →
    ∃ c more, ts = c ++ close :: rest ∧ close.kind = .rparen ∧ args = acc ++ more ∧
      MoreArgsOf true (lexemes c) more

/-- A fresh operand has the top level, which every operator takes. -/
theorem takes_six (m : Nat) (ts : List Token) : Takes m false 6 ts :=
  fun _ _ op _ _ _ => op.leftLevel_le_six

/-- A reading that read something of the grammar left fewer tokens than it had. -/
theorem length_lt_of_consumed {c ts rest : List Token} (h : ts = c ++ rest)
    (hc : lexemes c ≠ []) : rest.length < ts.length := by
  cases c with
  | nil => exact absurd rfl hc
  | cons t c => subst h; simp only [List.cons_append, List.length_cons, List.length_append]; omega

/-! ## The steps -/

theorem argsRest_reads (heof : eof.kind = .eof) {ts : List Token}
    (hexp : ∀ r : List Token, r.length < ts.length → ExprReads eof r)
    (hmore : ∀ r : List Token, r.length < ts.length → MoreArgsReads eof r) :
    MoreArgsReads eof ts := by
  intro acc args close rest h
  cases ts with
  | nil =>
    rw [argsRest] at h
    obtain ⟨c, hc, -⟩ := (Reading.map_yields _ _).1 h
    obtain ⟨h1, -⟩ := expect_yields heof hc (by decide)
    cases h1
  | cons t r =>
    rw [argsRest] at h
    split at h
    · rename_i hcomma
      rw [Reading.after_yields, Reading.andThen_yields] at h
      obtain ⟨a, hya, hk⟩ := h
      obtain ⟨c₁, hr, he, -⟩ := hexp r (by simp) 0 a _ hya
      obtain ⟨c₂, more, hs, hclose, rfl, hm⟩ :=
        hmore _ (by have := hya.suffix.length_le; simp; omega) _ _ _ _ hk
      refine ⟨t :: c₁ ++ c₂, a :: more, by rw [hr, hs]; simp, hclose, by simp, ?_⟩
      have hw := MoreArgsOf.comma (x := t.text) he hm
      simpa [hcomma] using hw
    · obtain ⟨c, hc, heq⟩ := (Reading.map_yields _ _).1 h
      obtain ⟨hr, hk⟩ := expect_yields heof hc (by decide)
      simp only [Prod.mk.injEq] at heq
      obtain ⟨rfl, rfl⟩ := heq
      exact ⟨[], [], by rw [hr]; rfl, hk, by simp, .nil⟩

/-- When the loop stops, what it built is the expression, at the level asked for. -/
theorem loop_stop {m L : Nat} {left : Expr} {c₀ ts : List Token}
    (hleft : ExpOf true L (lexemes c₀) left) (hm : powerLevel m ≤ L) (hstop : Stops m ts) :
    ∃ c, ts = c ++ ts ∧ ExpOf true (powerLevel m) (lexemes (c₀ ++ c)) left ∧ Stops m ts :=
  ⟨[], rfl, by simpa using hleft.lower hm, hstop⟩

theorem infixLoop_reads {ts : List Token}
    (hexp : ∀ r : List Token, r.length < ts.length → ExprReads eof r)
    (hloop : ∀ r : List Token, r.length < ts.length → LoopReads eof r) :
    LoopReads eof ts := by
  intro m left flag L c₀ e rest hleft hm hflag htakes h
  cases ts with
  | nil =>
    rw [infixLoop] at h
    obtain ⟨rfl, rfl⟩ := Reading.ok_yields.1 h
    exact loop_stop hleft hm (stops_nil m)
  | cons t r =>
    rw [infixLoop] at h
    rcases hop : Infix.ofKind? t.kind with _ | op
    · simp only [hop] at h
      obtain ⟨rfl, rfl⟩ := Reading.ok_yields.1 h
      exact loop_stop hleft hm (by simp [Stops, hop])
    simp only [hop] at h
    split at h
    · obtain ⟨rfl, rfl⟩ := Reading.ok_yields.1 h
      exact loop_stop hleft hm (by simp only [Stops, List.head?_cons, Option.mem_def,
        Option.some.injEq, forall_eq']; intro op' hop'; simp_all)
    rename_i hlt
    split at h
    · exact absurd h Reading.fail_yields
    rename_i hcmp
    have hlow : op.leftLevel ≤ L := htakes t rfl op hop (by omega) (by simpa using hcmp)
    rw [Reading.after_yields, Reading.andThen_yields] at h
    obtain ⟨right, hyr, hk⟩ := h
    obtain ⟨c₁, hr, hright, hstops⟩ := hexp r (by simp) _ _ _ hyr
    rw [Infix.powerLevel_rightPower] at hright
    have hshort : (parseExpr eof op.rightPower r).rest.length < (t :: r).length := by
      have := hyr.suffix.length_le; simp; omega
    have hmle : m ≤ op.leftPower := by omega
    have hlevel : powerLevel m ≤ op.level :=
      Infix.powerLevel_leftPower op ▸ powerLevel_mono hmle
    -- what the operator after the right operand takes follows from where that operand stopped
    have htakes' : Takes m (op.isComparison) op.level (parseExpr eof op.rightPower r).rest :=
      fun u hu q hq _ hqc => Infix.leftLevel_le_level op q (hstops u hu q hq) hqc
    cases op with
    | assign =>
      simp only at hk
      cases hl : left.asLoc? with
      | none => simp only [hl] at hk; exact absurd hk Reading.fail_yields
      | some target =>
        simp only [hl] at hk
        have htarget := hleft.targetOf (Expr.eq_loc_of_asLoc hl)
        have hnew : ExpOf true 0 (lexemes (c₀ ++ t :: c₁))
            (.assign target right (left.span.through right.span)) := by
          have := ExpOf.assign (x := t.text) (s := left.span.through right.span) htarget hright
          simpa [Infix.ofKind_eq_assign hop] using this
        obtain ⟨c, hc, he, hst⟩ := hloop _ hshort m _ false 0 _ e rest hnew
          (by simpa [Infix.level] using hlevel) rfl htakes' hk
        exact ⟨t :: c₁ ++ c, by rw [hr, hc]; simp, by simpa using he, hst⟩
    | binary b =>
      simp only at hk
      have hkind := Infix.ofKind_eq_binary hop
      have hnew : ExpOf true b.level (lexemes (c₀ ++ t :: c₁))
          (.binary left b right (left.span.through right.span)) := by
        cases hb : b.isComparison
        · have := ExpOf.binary (x := t.text) (s := left.span.through right.span) hb
            (hleft.lower (by simpa [Infix.leftLevel, hb] using hlow))
            (by simpa [Infix.rightLevel] using hright)
          simpa [hkind] using this
        · have h3 : b.level = 3 := by cases b <;> simp_all [BinOp.isComparison] <;> rfl
          have := ExpOf.compare (x := t.text) (s := left.span.through right.span) hb
            (hleft.lower (by simpa [Infix.leftLevel, hb] using hlow))
            (by simpa [Infix.rightLevel, h3] using hright)
          simpa [hkind, h3] using this
      obtain ⟨c, hc, he, hst⟩ := hloop _ hshort m _ b.isComparison b.level _ e rest hnew
        (by simpa [Infix.level] using hlevel) (Infix.isComparison_eq_level b) htakes' hk
      exact ⟨t :: c₁ ++ c, by rw [hr, hc]; simp, by simpa using he, hst⟩

theorem parsePrefix_reads (heof : eof.kind = .eof) {ts : List Token}
    (hexp : ∀ r : List Token, r.length < ts.length → ExprReads eof r)
    (hargs : ∀ r : List Token, r.length < ts.length → ArgsReads eof r) :
    PrefixReads eof ts := by
  intro e rest h
  fun_cases parsePrefix eof ts with
  | case1 => simp [parsePrefix] at h
  | case2 t r op hop =>
    rw [parsePrefix_unary hop, Reading.after_yields, Reading.map_yields] at h
    obtain ⟨e', he', rfl⟩ := h
    obtain ⟨c, hr, hw, -⟩ := hexp r (by simp) _ _ _ he'
    refine ⟨t :: c, by rw [hr]; rfl, ?_⟩
    have hu : ExpOf true 6 ((op.kind, t.text) :: lexemes c) (.unary op e' (t.span.through e'.span)) :=
      .unary (by simpa using hw)
    simpa [unOp_eq hop] using hu
  | case3 t r _ hk =>
    rw [parsePrefix_intLit hk, Reading.after_yields, Reading.ok_yields] at h
    obtain ⟨rfl, rfl⟩ := h
    exact ⟨[t], rfl, .term (by simpa [hk] using TermOf.intLit)⟩
  | case4 t r _ hk =>
    rw [parsePrefix_stringLit hk, Reading.after_yields, Reading.ok_yields] at h
    obtain ⟨rfl, rfl⟩ := h
    exact ⟨[t], rfl, .term (by simpa [hk] using TermOf.strLit)⟩
  | case5 t r _ hk =>
    rw [parsePrefix_true hk, Reading.after_yields, Reading.ok_yields] at h
    obtain ⟨rfl, rfl⟩ := h
    exact ⟨[t], rfl, .term (by simpa [hk] using TermOf.trueLit)⟩
  | case6 t r _ hk =>
    rw [parsePrefix_false hk, Reading.after_yields, Reading.ok_yields] at h
    obtain ⟨rfl, rfl⟩ := h
    exact ⟨[t], rfl, .term (by simpa [hk] using TermOf.falseLit)⟩
  | case7 t r _ hk =>
    rw [parsePrefix_paren hk, Reading.after_yields, Reading.andThen_yields] at h
    obtain ⟨e', hye, hclose⟩ := h
    obtain ⟨close, hc, rfl⟩ := (Reading.map_yields _ _).1 hclose
    obtain ⟨c, hr, hw, -⟩ := hexp r (by simp) _ _ _ hye
    obtain ⟨hs, hck⟩ := expect_yields heof hc (by decide)
    refine ⟨t :: c ++ [close], by rw [hr, hs]; simp, .term ?_⟩
    have := TermOf.paren (x := t.text) (y := close.text) hw
    simpa [hk, hck] using this
  | case8 t _ hk u r hu =>
    rw [parsePrefix_call hk hu, Reading.after_yields, Reading.after_yields,
      Reading.map_yields] at h
    obtain ⟨⟨args, close⟩, ha, rfl⟩ := h
    obtain ⟨c, hr, hck, hw⟩ := hargs r (by simp only [List.length_cons]; omega) _ _ _ ha
    refine ⟨t :: u :: c ++ [close], by rw [hr]; simp, .term ?_⟩
    have hcall : TermOf true ((.ident, t.text) :: (.lparen, u.text) :: lexemes c ++
        [(.rparen, close.text)]) (.call t.ident args (t.span.through close.span)) := .call hw
    simpa [hk, hu, hck] using hcall
  | case9 t _ hk u r hu =>
    rw [parsePrefix_loc hk hu, Reading.after_yields, Reading.map_yields] at h
    obtain ⟨l, hl, rfl⟩ := h
    obtain ⟨c, hr, hw⟩ := locRest_sound heof (LocOf.var (n := t.text) (s := t.span)) hl
    refine ⟨t :: c, by rw [hr]; rfl, .term (.loc ?_)⟩
    simpa [hk] using hw
  | case10 t _ hk =>
    rw [parsePrefix_var hk, Reading.after_yields, Reading.ok_yields] at h
    obtain ⟨rfl, rfl⟩ := h
    exact ⟨[t], rfl, .term (.loc (by simpa [hk, Token.ident] using LocOf.var (n := t.text) (s := t.span)))⟩
  | case11 t r hop h1 h2 h3 h4 h5 h6 =>
    rw [parsePrefix.eq_def] at h
    simp only [hop] at h
    exact absurd h Reading.fail_yields

theorem parseExpr_reads {ts : List Token} (hpre : PrefixReads eof ts)
    (hloop : ∀ r : List Token, r.length < ts.length → LoopReads eof r) :
    ExprReads eof ts := by
  intro m e rest h
  rw [parseExpr, Reading.andThen_yields] at h
  obtain ⟨left, hl, hk⟩ := h
  obtain ⟨c₀, hts, hleft⟩ := hpre _ _ hl
  -- the loop starts from a fresh operand, of the top level
  obtain ⟨c, hc, he, hst⟩ := hloop _ (length_lt_of_consumed hts hleft.ne_nil) m left false 6 c₀
    e rest hleft (powerLevel_le_six m) (by decide) (takes_six m _) hk
  exact ⟨c₀ ++ c, by rw [hts, hc]; simp, he, hst⟩

theorem parseArgs_reads (heof : eof.kind = .eof) {ts : List Token} (hexp : ExprReads eof ts)
    (hmore : ∀ r : List Token, r.length < ts.length → MoreArgsReads eof r) :
    ArgsReads eof ts := by
  intro args close rest h
  by_cases hk : (current eof ts).kind = .rparen
  · rw [parseArgs_close hk, Reading.map_yields] at h
    obtain ⟨c, hc, heq⟩ := h
    obtain ⟨hts, hck⟩ := expect_yields heof hc (by decide)
    simp only [Prod.mk.injEq] at heq
    obtain ⟨rfl, rfl⟩ := heq
    exact ⟨[], by rw [hts]; rfl, hck, .none⟩
  · rw [parseArgs_some hk, Reading.andThen_yields] at h
    obtain ⟨a, ha, hk'⟩ := h
    obtain ⟨c₁, hts, he, -⟩ := hexp 0 a _ ha
    obtain ⟨c₂, more, hs, hclose, rfl, hm⟩ :=
      hmore _ (length_lt_of_consumed hts he.ne_nil) _ _ _ _ hk'
    exact ⟨c₁ ++ c₂, by rw [hts, hs]; simp, hclose, by simpa using ArgsOf.some he hm⟩

/-! ## All lengths at once -/

/-- The readers' answers, for every list of tokens, by induction on its length. -/
theorem expr_readers_sound (heof : eof.kind = .eof) (ts : List Token) :
    ExprReads eof ts ∧ LoopReads eof ts ∧ ArgsReads eof ts ∧ MoreArgsReads eof ts := by
  suffices ∀ n (ts : List Token), ts.length = n →
      ExprReads eof ts ∧ LoopReads eof ts ∧ ArgsReads eof ts ∧ MoreArgsReads eof ts from
    this _ ts rfl
  intro n
  induction n using Nat.strongRecOn with
  | ind n ih =>
    intro ts hn
    subst hn
    have hexp r (hr : r.length < ts.length) := (ih _ hr r rfl).1
    have hloop r (hr : r.length < ts.length) := (ih _ hr r rfl).2.1
    have hargs r (hr : r.length < ts.length) := (ih _ hr r rfl).2.2.1
    have hmore r (hr : r.length < ts.length) := (ih _ hr r rfl).2.2.2
    -- the readers that call one another on as many tokens come in order of rank
    have hexpr := parseExpr_reads (parsePrefix_reads heof hexp hargs) hloop
    exact ⟨hexpr, infixLoop_reads hexp hloop, parseArgs_reads heof hexpr hmore,
      argsRest_reads heof hexp hmore⟩

/-- **Soundness of the expression reader.** A clean reading with power `m` read an
expression of the grammar at level `powerLevel m`, denoting the tree it answers,
and stopped where no operator binds as strongly as `m`. -/
theorem parseExpr_sound (heof : eof.kind = .eof) {m : Nat} {ts rest : List Token} {e : Expr}
    (h : (parseExpr eof m ts).Yields e rest) :
    ∃ c, ts = c ++ rest ∧ ExpOf true (powerLevel m) (lexemes c) e ∧ Stops m rest :=
  (expr_readers_sound heof ts).1 m e rest h

/-- A clean reading of a call's arguments read arguments of the grammar and the
closing parenthesis. -/
theorem parseArgs_sound (heof : eof.kind = .eof) {ts rest : List Token} {args : List Expr}
    {close : Token} (h : (parseArgs eof ts).Yields (args, close) rest) :
    ∃ c, ts = c ++ close :: rest ∧ close.kind = .rparen ∧ ArgsOf true (lexemes c) args :=
  (expr_readers_sound heof ts).2.2.1 args close rest h

end EggFront
