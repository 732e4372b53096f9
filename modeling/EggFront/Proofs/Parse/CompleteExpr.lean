import EggFront.Proofs.Parse.SoundProgram
import EggFront.Proofs.Erase

/-!
# Expressions of the grammar are read by the parser

The converse of `Parse.SoundExpr`: the tokens of an expression of the grammar,
read with a power that admits its level, are read exactly, into a tree equal to
the grammar's up to spans (`Grammar.ExpOf.complete`).

## What follows an expression

The parser reads as far as it can, so an expression is read exactly only before
tokens that cannot go on with it: no `.` or `(` that would extend a name into a
field or a call (`EndsTerm`), and no operator that binds as strongly as the
right operand of the expression's own operator (`Stops (rightPowerAt ℓ)`). In
the grammar an expression is followed only by such tokens: a closing
parenthesis, a comma, a semicolon, or the operator of an enclosing expression of
a looser level.

## The induction

A derivation is a tree, while the parser reads a chain of operators from left
to right; the two meet in `Reading.Continues`. Reading an expression, the parser
passes through the state in which it has read exactly the expression's tokens
and goes on with the operator loop holding its tree. For `l op r` that state is
reached from the one after `l`, by reading `r` with the operator's right power,
which stops before anything that follows the whole. The induction is on the
derivation, with terms, arguments and expressions handled together.

The tree the parser builds depends on the tokens only, so it is chosen before
the end marker, the power and what follows are.
-/

namespace EggFront

open Grammar

variable {eof : Token}

/-! ## Stopping -/

/-- No field or call continues a term before `ts`: it starts with neither `.` nor `(`. -/
def EndsTerm (ts : List Token) : Prop :=
  ∀ t ∈ ts.head?, t.kind ≠ .dot ∧ t.kind ≠ .lparen

theorem endsTerm_cons {t : Token} {ts : List Token} (h₁ : t.kind ≠ .dot) (h₂ : t.kind ≠ .lparen) :
    EndsTerm (t :: ts) := by
  simp [EndsTerm, h₁, h₂]

theorem stops_cons {m : Nat} {t : Token} {ts : List Token} (h : Infix.ofKind? t.kind = none) :
    Stops m (t :: ts) := by
  simp [Stops, h]

/-- The loop stops at once where no operator binds as strongly as its power. -/
theorem infixLoop_stop {m : Nat} {left : Expr} {flag : Bool} {ts : List Token} (h : Stops m ts) :
    infixLoop eof m left flag ts = .ok left ts := by
  cases ts with
  | nil => exact infixLoop_nil
  | cons t r =>
    rcases hop : Infix.ofKind? t.kind with _ | op
    · exact infixLoop_none hop
    · exact infixLoop_weak hop (h t rfl op hop)

/-- After its operand, an expression is read by the operator loop. -/
theorem parseExpr_continues {m : Nat} {ts s : List Token} {left : Expr}
    (h : (parsePrefix eof ts).Yields left s) :
    (parseExpr eof m ts).Continues (infixLoop eof m left false s) := by
  rw [parseExpr]
  exact h.andThen_continues h.suffix

theorem locRest_stop {base : Loc} {ts : List Token} (h : ∀ t ∈ ts.head?, t.kind ≠ .dot) :
    locRest eof base ts = .ok base ts := by
  cases ts with
  | nil => exact locRest_nil
  | cons t r => exact locRest_other (h t rfl)

/-- A word that starts with a closing token stops every expression before it. -/
theorem ends_of_head {ts : List Token}
    (h : ∀ u ∈ ts.head?, Infix.ofKind? u.kind = none ∧ u.kind ≠ .dot ∧ u.kind ≠ .lparen) :
    EndsTerm ts ∧ ∀ m, Stops m ts := by
  refine ⟨fun u hu => (h u hu).2, fun m u hu op hop => ?_⟩
  rw [(h u hu).1] at hop
  cases hop

/-! ## Locations and targets -/

/-- The fields of a location of the grammar are read one after another, and the
reading goes on after them with the whole location. -/
theorem Grammar.LocOf.locRest_complete {w : List Lexeme} {l : Loc} (h : LocOf w l) {c : List Token}
    (hc : lexemes c = w) :
    ∃ t c', c = t :: c' ∧ t.kind = .ident ∧ (∀ u ∈ c'.head?, u.kind = .dot) ∧
      ∃ l', l'.erase = l.erase ∧
        ∀ eof rest, (locRest eof (.var t.ident) (c' ++ rest)).Continues (locRest eof l' rest) := by
  induction h generalizing c with
  | var =>
    obtain ⟨t, c', rfl, hk, hx, hc'⟩ := lexemes_eq_cons hc
    obtain rfl := lexemes_eq_nil hc'
    refine ⟨t, [], rfl, hk, by simp, .var t.ident, ?_, fun _ _ => .refl _⟩
    simp [Loc.erase, Ident.erase, Token.ident, hx]
  | field hl ih =>
    obtain ⟨c₀, c₁, rfl, hc₀, hc₁⟩ := lexemes_eq_append hc
    obtain ⟨d, c₂, rfl, hdk, -, hc₂⟩ := lexemes_eq_cons hc₁
    obtain ⟨u, c₃, rfl, huk, hux, hc₃⟩ := lexemes_eq_cons hc₂
    obtain rfl := lexemes_eq_nil hc₃
    obtain ⟨t, c', rfl, hk, hdot, l₀, he, hcont⟩ := ih hc₀
    refine ⟨t, c' ++ [d, u], by simp, hk, ?_,
      .field l₀ ⟨u.text, u.span, none⟩ (l₀.span.through u.span) false none, ?_, fun eof rest => ?_⟩
    · cases c' with
      | nil => simpa using hdk
      | cons v c' => simpa using hdot
    · simp [Loc.erase, Ident.erase, he, hux]
    · have hfield : (locRest eof l₀ (d :: u :: rest)).Continues
          (locRest eof (.field l₀ ⟨u.text, u.span, none⟩ (l₀.span.through u.span) false none) rest) := by
        rw [locRest_dot hdk, Reading.after_continues]
        exact (expectIdent_yields_of rest huk).andThen_continues (List.suffix_cons u rest)
      rw [show c' ++ [d, u] ++ rest = c' ++ d :: u :: rest by simp]
      exact (hcont eof (d :: u :: rest)).trans hfield

/-- A location of the grammar, followed by neither `.` nor `(`, is read as an operand. -/
theorem Grammar.LocOf.prefix_complete {w : List Lexeme} {l : Loc} (h : LocOf w l) {c : List Token}
    (hc : lexemes c = w) :
    ∃ l', l'.erase = l.erase ∧
      ∀ eof rest, EndsTerm rest → (parsePrefix eof (c ++ rest)).Yields (.loc l') rest := by
  obtain ⟨t, c', rfl, hk, hdot, l', he, hcont⟩ := h.locRest_complete hc
  refine ⟨l', he, fun eof rest hend => ?_⟩
  have hl : (locRest eof (.var t.ident) (c' ++ rest)).Yields l' rest := by
    refine hcont eof rest l' rest ?_
    rw [locRest_stop fun u hu => (hend u hu).1]
    exact Reading.ok_yields.2 ⟨rfl, rfl⟩
  rw [List.cons_append]
  cases hcr : c' ++ rest with
  | nil =>
    obtain ⟨rfl, rfl⟩ := List.append_eq_nil_iff.1 hcr
    rw [List.nil_append, locRest_nil, Reading.ok_yields] at hl
    obtain ⟨rfl, -⟩ := hl
    rw [parsePrefix_var hk, Reading.after_yields, Reading.ok_yields]
    exact ⟨rfl, rfl⟩
  | cons u r =>
    -- what follows the name is a field's dot, or what follows the location
    have hu : u.kind ≠ .lparen := by
      cases c' with
      | nil =>
        rw [List.nil_append] at hcr
        exact (hend u (by simp [hcr])).2
      | cons v c' =>
        simp only [List.cons_append, List.cons.injEq] at hcr
        rw [← hcr.1, hdot v rfl]
        decide
    rw [parsePrefix_loc hk hu, Reading.after_yields, Reading.map_yields]
    exact ⟨l', hcr ▸ hl, rfl⟩

/-- A target of the grammar, followed by neither `.` nor `(`, is read as an operand. -/
theorem Grammar.TargetOf.prefix_complete {w : List Lexeme} {l : Loc} (h : TargetOf true w l)
    {c : List Token} (hc : lexemes c = w) :
    ∃ l', l'.erase = l.erase ∧
      ∀ eof rest, EndsTerm rest → (parsePrefix eof (c ++ rest)).Yields (.loc l') rest := by
  induction h generalizing c with
  | loc hl => exact hl.prefix_complete hc
  | paren _ _ ih =>
    obtain ⟨lp, c₁, rfl, hlp, -, hc₁⟩ := lexemes_eq_cons hc
    obtain ⟨c₂, c₃, rfl, hc₂, hc₃⟩ := lexemes_eq_append hc₁
    obtain ⟨rp, c₄, rfl, hrp, -, hc₄⟩ := lexemes_eq_cons hc₃
    obtain rfl := lexemes_eq_nil hc₄
    obtain ⟨l', he, hl⟩ := ih hc₂
    refine ⟨l', he, fun eof rest _ => ?_⟩
    have hexpr : (parseExpr eof 0 (c₂ ++ rp :: rest)).Yields (.loc l') (rp :: rest) := by
      refine parseExpr_continues (hl eof _ (endsTerm_cons (by rw [hrp]; decide)
        (by rw [hrp]; decide))) _ _ ?_
      rw [infixLoop_stop (stops_cons (by rw [hrp]; rfl))]
      exact Reading.ok_yields.2 ⟨rfl, rfl⟩
    rw [show lp :: (c₂ ++ [rp]) ++ rest = lp :: (c₂ ++ rp :: rest) by simp,
      parsePrefix_paren hlp, Reading.after_yields]
    exact Reading.andThen_yields_of hexpr fun _ =>
      expect_map_yields_of rest hrp

/-! ## Powers by level -/

/-- The power with which the right operand of an operator of level `ℓ` is read;
at the top level, that of the operand of a prefix operator. -/
def rightPowerAt : Nat → Nat
  | 0 => 1 | 1 => 4 | 2 => 6 | 3 => 8 | 4 => 12 | 5 => 14 | _ => prefixPower

theorem rightPowerAt_mono {ℓ ℓ' : Nat} (h : ℓ ≤ ℓ') : rightPowerAt ℓ ≤ rightPowerAt ℓ' := by
  rcases ℓ with _ | _ | _ | _ | _ | _ | ℓ <;> rcases ℓ' with _ | _ | _ | _ | _ | _ | ℓ' <;>
    simp only [rightPowerAt, prefixPower] <;> omega

theorem Infix.rightPower_binary (b : BinOp) : (Infix.binary b).rightPower = rightPowerAt b.level := by
  cases b <;> rfl

theorem Infix.leftPower_lt_prefixPower (op : Infix) : op.leftPower < prefixPower := by
  rcases op with _ | b
  · decide
  · cases b <;> decide

theorem stops_prefixPower (ts : List Token) : Stops prefixPower ts :=
  fun _ _ op _ => op.leftPower_lt_prefixPower

/-! ## Steps of the loop -/

/-- An operator that binds strongly enough, after a left operand that is not a
second comparison, is joined with the right operand read after it. -/
theorem infixLoop_binary_continues {m : Nat} {b : BinOp} {o : Token} {left right : Expr}
    {flag : Bool} {ts rest : List Token} (hok : o.kind = b.kind) (hm : powerLevel m ≤ b.level)
    (hflag : ¬(b.isComparison = true ∧ flag = true))
    (hr : (parseExpr eof (Infix.binary b).rightPower ts).Yields right rest) :
    (infixLoop eof m left flag (o :: ts)).Continues
      (infixLoop eof m (.binary left b right (left.span.through right.span)) b.isComparison rest) := by
  have hop : Infix.ofKind? o.kind = some (.binary b) := by rw [hok, Infix.ofKind_kind]
  have hge : ¬(Infix.binary b).leftPower < m :=
    Nat.not_lt.2 ((Infix.binary b).le_leftPower hm)
  rw [infixLoop_binary hop hge hflag, Reading.after_continues]
  exact hr.andThen_continues hr.suffix

/-- The loop has read an expression up to `rest`: it stops there with it. -/
theorem parseExpr_yields_of_continues {m : Nat} {ts rest : List Token} {e : Expr} {f : Bool}
    (h : (parseExpr eof m ts).Continues (infixLoop eof m e f rest)) (hstop : Stops m rest) :
    (parseExpr eof m ts).Yields e rest := by
  refine h e rest ?_
  rw [infixLoop_stop hstop]
  exact Reading.ok_yields.2 ⟨rfl, rfl⟩

/-! ## What follows an operand -/

theorem Infix.leftPower_lt_rightPowerAt {b : BinOp} {ℓ : Nat} (h : b.level ≤ ℓ) :
    (Infix.binary b).leftPower < rightPowerAt ℓ := by
  have hlt : (Infix.binary b).leftPower < rightPowerAt b.level := by cases b <;> decide
  exact Nat.lt_of_lt_of_le hlt (rightPowerAt_mono h)

/-- An operator's token ends the operand before it, and no stronger operator
follows. -/
theorem follows_operator {b : BinOp} {ℓ : Nat} {o : Token} (ts : List Token) (hok : o.kind = b.kind)
    (h : b.level ≤ ℓ) : EndsTerm (o :: ts) ∧ Stops (rightPowerAt ℓ) (o :: ts) := by
  refine ⟨endsTerm_cons (by rw [hok]; cases b <;> decide) (by rw [hok]; cases b <;> decide), ?_⟩
  intro u hu q hq
  simp only [List.head?_cons, Option.mem_def, Option.some.injEq] at hu
  subst hu
  rw [hok, Infix.ofKind_kind, Option.some.injEq] at hq
  subst hq
  exact Infix.leftPower_lt_rightPowerAt h

/-- Further arguments start with a comma, and the argument list ends with `)`:
either ends the argument before them. -/
theorem follows_argument {w : List Lexeme} {es : List Expr} {c : List Token} {close : Token}
    (rest : List Token) (hm : MoreArgsOf true w es) (hc : lexemes c = w)
    (hclose : close.kind = .rparen) :
    EndsTerm (c ++ close :: rest) ∧ ∀ m, Stops m (c ++ close :: rest) := by
  apply ends_of_head
  intro u hu
  cases c with
  | nil =>
    simp only [List.nil_append, List.head?_cons, Option.mem_def, Option.some.injEq] at hu
    subst hu
    rw [hclose]
    decide
  | cons v c =>
    simp only [List.cons_append, List.head?_cons, Option.mem_def, Option.some.injEq] at hu
    subst hu
    have hv := hm.head (v.kind, v.text) (by simp [← hc])
    simp only at hv
    rw [hv]
    decide

/-- A closing parenthesis ends every expression before it. -/
theorem follows_rparen {rp : Token} (rest : List Token) (hrp : rp.kind = .rparen) :
    EndsTerm (rp :: rest) ∧ ∀ m, Stops m (rp :: rest) := by
  apply ends_of_head
  intro u hu
  simp only [List.head?_cons, Option.mem_def, Option.some.injEq] at hu
  subst hu
  rw [hrp]
  decide

mutual

/-- **Completeness of the expression reader**, in the form the induction needs.
The tokens of an expression of the grammar of level `ℓ` determine a tree, equal
to the grammar's up to spans, and a mark that it ends in a comparison, set only
at level 3 or below; reading them with any power that admits level `ℓ`, before
tokens that an expression of that level cannot go on with, the parser reads
exactly them and goes on with the operator loop, holding that tree. -/
theorem Grammar.ExpOf.complete {ℓ : Nat} {w : List Lexeme} {e : Expr} :
    ExpOf true ℓ w e → ∀ {c : List Token}, lexemes c = w →
      ∃ e' f, e'.erase = e.erase ∧ (f = true → ℓ ≤ 3) ∧
        ∀ eof m rest, powerLevel m ≤ ℓ → EndsTerm rest → Stops (rightPowerAt ℓ) rest →
          (parseExpr eof m (c ++ rest)).Continues (infixLoop eof m e' f rest)
  | .term h, c, hc => by
    obtain ⟨e', he, hp⟩ := h.complete hc
    exact ⟨e', false, he, by simp, fun eof m rest _ hend _ => parseExpr_continues (hp eof rest hend)⟩
  | .lift h hlt, c, hc => by
    obtain ⟨e', f, he, hf, hcont⟩ := h.complete hc
    refine ⟨e', f, he, fun hf' => by have := hf hf'; omega, fun eof m rest hm hend hstop => ?_⟩
    exact hcont eof m rest (by omega) hend (hstop.mono (rightPowerAt_mono (by omega)))
  | @ExpOf.unary _ _ _ op _ _ h, c, hc => by
    obtain ⟨u, c', rfl, huk, -, hc'⟩ := lexemes_eq_cons hc
    obtain ⟨d, f, hd, -, hcont⟩ := h.complete hc'
    refine ⟨.unary op d (u.span.through d.span), false, by simp [Expr.erase, hd], by simp,
      fun eof m rest _ hend _ => parseExpr_continues ?_⟩
    -- the operand is read with the prefix power, which every operator stops
    have hy := parseExpr_yields_of_continues (hcont eof prefixPower rest (by simp) hend
      (stops_prefixPower rest)) (stops_prefixPower rest)
    rw [List.cons_append, parsePrefix_unary (by rw [huk, unOp_kind])]
    exact (Reading.map_yields _ _).2 ⟨d, hy, rfl⟩
  | @ExpOf.binary _ _ _ _ _ b _ _ hb hl hr, c, hc => by
    obtain ⟨c₁, c₂', rfl, hc₁, hc₂'⟩ := lexemes_eq_append hc
    obtain ⟨o, c₂, rfl, hok, -, hc₂⟩ := lexemes_eq_cons hc₂'
    obtain ⟨l', fl, hle, -, hcl⟩ := hl.complete hc₁
    obtain ⟨r', fr, hre, -, hcr⟩ := hr.complete hc₂
    refine ⟨.binary l' b r' (l'.span.through r'.span), b.isComparison,
      by simp [Expr.erase, hle, hre], by simp [hb], fun eof m rest hm hend hstop => ?_⟩
    have hfollow := follows_operator (c₂ ++ rest) hok (Nat.le_refl b.level)
    -- the right operand is read with the operator's right power, where what
    -- follows the whole expression stops it
    have hry := parseExpr_yields_of_continues
      (hcr eof (Infix.binary b).rightPower rest (by rw [Infix.powerLevel_rightPower]; exact Nat.le_refl _) hend
        (hstop.mono (rightPowerAt_mono (by omega))))
      (by rw [Infix.rightPower_binary]; exact hstop)
    rw [show c₁ ++ o :: c₂ ++ rest = c₁ ++ o :: (c₂ ++ rest) by simp]
    exact (hcl eof m _ hm hfollow.1 hfollow.2).trans
      (infixLoop_binary_continues hok hm (by simp [hb]) hry)
  | @ExpOf.compare _ _ _ _ _ b _ _ hb hl hr, c, hc => by
    have h3 : b.level = 3 := of_decide_eq_true ((Infix.isComparison_eq_level b) ▸ hb)
    obtain ⟨c₁, c₂', rfl, hc₁, hc₂'⟩ := lexemes_eq_append hc
    obtain ⟨o, c₂, rfl, hok, -, hc₂⟩ := lexemes_eq_cons hc₂'
    obtain ⟨l', fl, hle, hfl, hcl⟩ := hl.complete hc₁
    obtain ⟨r', fr, hre, -, hcr⟩ := hr.complete hc₂
    -- an operand of level 4 is no comparison, so the comparison is not a second one
    have hfl' : fl = false := by
      cases fl with
      | false => rfl
      | true => exact absurd (hfl rfl) (by decide)
    refine ⟨.binary l' b r' (l'.span.through r'.span), b.isComparison,
      by simp [Expr.erase, hle, hre], fun _ => Nat.le_refl 3, fun eof m rest hm hend hstop => ?_⟩
    have hfollow := follows_operator (c₂ ++ rest) hok (show b.level ≤ 4 by omega)
    have hry := parseExpr_yields_of_continues
      (hcr eof (Infix.binary b).rightPower rest
        (by rw [Infix.powerLevel_rightPower]; simp [Infix.rightLevel, h3]) hend
        (hstop.mono (rightPowerAt_mono (by omega))))
      (by rw [Infix.rightPower_binary, h3]; exact hstop)
    rw [show c₁ ++ o :: c₂ ++ rest = c₁ ++ o :: (c₂ ++ rest) by simp]
    exact (hcl eof m _ (by omega) hfollow.1 hfollow.2).trans
      (infixLoop_binary_continues hok (by omega) (by simp [hfl']) hry)
  | .assign ht hv, c, hc => by
    obtain ⟨c₁, c₂', rfl, hc₁, hc₂'⟩ := lexemes_eq_append hc
    obtain ⟨o, c₂, rfl, hok, -, hc₂⟩ := lexemes_eq_cons hc₂'
    obtain ⟨l', hle, hp⟩ := ht.prefix_complete hc₁
    obtain ⟨v', fv, hve, -, hcv⟩ := hv.complete hc₂
    refine ⟨.assign l' v' ((Expr.loc l').span.through v'.span), false,
      by simp [Expr.erase, hle, hve], by simp, fun eof m rest hm hend hstop => ?_⟩
    have hvy := parseExpr_yields_of_continues
      (hcv eof Infix.assign.rightPower rest (by decide) hend hstop) hstop
    have hop : Infix.ofKind? o.kind = some .assign := by rw [hok]; rfl
    have hge : ¬Infix.assign.leftPower < m := Nat.not_lt.2 (Infix.assign.le_leftPower hm)
    rw [show c₁ ++ o :: c₂ ++ rest = c₁ ++ o :: (c₂ ++ rest) by simp]
    refine (parseExpr_continues (hp eof _ (endsTerm_cons (by rw [hok]; decide)
      (by rw [hok]; decide)))).trans ?_
    rw [infixLoop_assign hop hge, Reading.after_continues]
    exact hvy.andThen_continues hvy.suffix

/-- A term of the grammar, followed by neither `.` nor `(`, is read as an operand. -/
theorem Grammar.TermOf.complete {w : List Lexeme} {e : Expr} :
    TermOf true w e → ∀ {c : List Token}, lexemes c = w →
      ∃ e', e'.erase = e.erase ∧
        ∀ eof rest, EndsTerm rest → (parsePrefix eof (c ++ rest)).Yields e' rest
  | .intLit, c, hc => by
    obtain ⟨t, c', rfl, hk, hx, hc'⟩ := lexemes_eq_cons hc
    obtain rfl := lexemes_eq_nil hc'
    refine ⟨.int (digitsValue t.text.toList) t.span, by simp [Expr.erase, hx], fun eof rest _ => ?_⟩
    rw [List.cons_append, List.nil_append, parsePrefix_intLit hk, Reading.after_yields]
    exact Reading.ok_yields.2 ⟨rfl, rfl⟩
  | .strLit, c, hc => by
    obtain ⟨t, c', rfl, hk, hx, hc'⟩ := lexemes_eq_cons hc
    obtain rfl := lexemes_eq_nil hc'
    refine ⟨.str t.text t.span, by simp [Expr.erase, hx], fun eof rest _ => ?_⟩
    rw [List.cons_append, List.nil_append, parsePrefix_stringLit hk, Reading.after_yields]
    exact Reading.ok_yields.2 ⟨rfl, rfl⟩
  | .trueLit, c, hc => by
    obtain ⟨t, c', rfl, hk, -, hc'⟩ := lexemes_eq_cons hc
    obtain rfl := lexemes_eq_nil hc'
    refine ⟨.bool true t.span, by simp [Expr.erase], fun eof rest _ => ?_⟩
    rw [List.cons_append, List.nil_append, parsePrefix_true hk, Reading.after_yields]
    exact Reading.ok_yields.2 ⟨rfl, rfl⟩
  | .falseLit, c, hc => by
    obtain ⟨t, c', rfl, hk, -, hc'⟩ := lexemes_eq_cons hc
    obtain rfl := lexemes_eq_nil hc'
    refine ⟨.bool false t.span, by simp [Expr.erase], fun eof rest _ => ?_⟩
    rw [List.cons_append, List.nil_append, parsePrefix_false hk, Reading.after_yields]
    exact Reading.ok_yields.2 ⟨rfl, rfl⟩
  | .loc h, c, hc => by
    obtain ⟨l', he, hp⟩ := h.prefix_complete hc
    exact ⟨.loc l', by simp [Expr.erase, he], hp⟩
  | .paren h, c, hc => by
    obtain ⟨lp, c₁, rfl, hlp, -, hc₁⟩ := lexemes_eq_cons hc
    obtain ⟨c₂, c₃, rfl, hc₂, hc₃⟩ := lexemes_eq_append hc₁
    obtain ⟨rp, c₄, rfl, hrp, -, hc₄⟩ := lexemes_eq_cons hc₃
    obtain rfl := lexemes_eq_nil hc₄
    obtain ⟨e', f, he, -, hcont⟩ := h.complete hc₂
    refine ⟨e', he, fun eof rest _ => ?_⟩
    have hclose := follows_rparen rest hrp
    have hy := parseExpr_yields_of_continues (hcont eof 0 _ (by simp) hclose.1 (hclose.2 _))
      (hclose.2 0)
    rw [show lp :: (c₂ ++ [rp]) ++ rest = lp :: (c₂ ++ rp :: rest) by simp, parsePrefix_paren hlp,
      Reading.after_yields]
    exact Reading.andThen_yields_of hy fun _ =>
      expect_map_yields_of rest hrp
  | .call h, c, hc => by
    obtain ⟨n, c₁, rfl, hnk, hnx, hc₁⟩ := lexemes_eq_cons hc
    obtain ⟨lp, c₂, rfl, hlp, -, hc₂⟩ := lexemes_eq_cons hc₁
    obtain ⟨c₃, c₄, rfl, hc₃, hc₄⟩ := lexemes_eq_append hc₂
    obtain ⟨rp, c₅, rfl, hrp, -, hc₅⟩ := lexemes_eq_cons hc₄
    obtain rfl := lexemes_eq_nil hc₅
    obtain ⟨args', hae, hy⟩ := h.complete hc₃
    refine ⟨.call n.ident args' (n.span.through rp.span),
      by simp [Expr.erase, Ident.erase, Token.ident, hnx, hae], fun eof rest _ => ?_⟩
    rw [show n :: lp :: (c₃ ++ [rp]) ++ rest = n :: lp :: (c₃ ++ rp :: rest) by simp,
      parsePrefix_call hnk hlp, Reading.after_yields, Reading.after_yields]
    exact (Reading.map_yields _ _).2 ⟨(args', rp), hy eof rest rp hrp, rfl⟩

/-- The arguments of a call in the grammar, and its `)`, are read as arguments. -/
theorem Grammar.ArgsOf.complete {w : List Lexeme} {args : List Expr} :
    ArgsOf true w args → ∀ {c : List Token}, lexemes c = w →
      ∃ args', args'.map Expr.erase = args.map Expr.erase ∧
        ∀ eof rest close, close.kind = .rparen →
          (parseArgs eof (c ++ close :: rest)).Yields (args', close) rest
  | .none, c, hc => by
    obtain rfl := lexemes_eq_nil hc
    refine ⟨[], rfl, fun eof rest close hclose => ?_⟩
    rw [List.nil_append, parseArgs_close (by simpa [current] using hclose)]
    exact expect_map_yields_of rest hclose
  | .some hd hm, c, hc => by
    obtain ⟨c₁, c₂, rfl, hc₁, hc₂⟩ := lexemes_eq_append hc
    obtain ⟨a', f, hae, -, hcont⟩ := hd.complete hc₁
    obtain ⟨es', hese, hy⟩ := hm.complete hc₂
    refine ⟨a' :: es', by simp [hae, hese], fun eof rest close hclose => ?_⟩
    have hfollow := follows_argument rest hm hc₂ hclose
    have hay := parseExpr_yields_of_continues (hcont eof 0 _ (by simp) hfollow.1 (hfollow.2 _))
      (hfollow.2 0)
    -- the first argument starts with a token that starts an operand, not `)`
    have hcur : (current eof (c₁ ++ (c₂ ++ close :: rest))).kind ≠ .rparen := by
      obtain ⟨x, w', hw, hx⟩ := hd.head
      cases c₁ with
      | nil => exact absurd (hc₁.trans hw) (by simp)
      | cons t c₁ =>
        simp only [lexemes_cons, hw, List.cons.injEq] at hc₁
        rw [← hc₁.1] at hx
        simp only [current, List.cons_append, List.headD_cons]
        intro hk
        rw [hk] at hx
        exact absurd hx (by simp [startsOperand])
    rw [List.append_assoc, parseArgs_some hcur]
    exact Reading.andThen_yields_of hay fun _ => by simpa using hy eof rest close [a'] hclose

/-- Further arguments of the grammar, and the `)` after them, are read as
further arguments. -/
theorem Grammar.MoreArgsOf.complete {w : List Lexeme} {es : List Expr} :
    MoreArgsOf true w es → ∀ {c : List Token}, lexemes c = w →
      ∃ es', es'.map Expr.erase = es.map Expr.erase ∧
        ∀ eof rest close acc, close.kind = .rparen →
          (argsRest eof acc (c ++ close :: rest)).Yields (acc ++ es', close) rest
  | .nil, c, hc => by
    obtain rfl := lexemes_eq_nil hc
    refine ⟨[], rfl, fun eof rest close acc hclose => ?_⟩
    rw [List.nil_append, argsRest_close (by rw [hclose]; decide)]
    rw [List.append_nil]
    exact expect_map_yields_of rest hclose
  | .comma hd hm, c, hc => by
    obtain ⟨cm, c₁, rfl, hcm, -, hc₁⟩ := lexemes_eq_cons hc
    obtain ⟨c₂, c₃, rfl, hc₂, hc₃⟩ := lexemes_eq_append hc₁
    obtain ⟨a', f, hae, -, hcont⟩ := hd.complete hc₂
    obtain ⟨es', hese, hy⟩ := hm.complete hc₃
    refine ⟨a' :: es', by simp [hae, hese], fun eof rest close acc hclose => ?_⟩
    have hfollow := follows_argument rest hm hc₃ hclose
    have hay := parseExpr_yields_of_continues (hcont eof 0 _ (by simp) hfollow.1 (hfollow.2 _))
      (hfollow.2 0)
    rw [show cm :: (c₂ ++ c₃) ++ close :: rest = cm :: (c₂ ++ (c₃ ++ close :: rest)) by simp,
      argsRest_comma hcm, Reading.after_yields]
    exact Reading.andThen_yields_of hay fun _ => by simpa using hy eof rest close (acc ++ [a']) hclose

end

end EggFront
