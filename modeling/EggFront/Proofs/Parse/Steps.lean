import EggFront.Proofs.Parse.Yields

/-!
# The readers, branch by branch

One equation for each branch of each reader, stated for the token it
branches on. The proofs about the parser rewrite with these and never unfold a
reader themselves. (Lean's own equations for a reader split further, on the
shape of the tokens after the one a branch looks at, so they do not fit a
branch as the parser writes it.)
-/

namespace EggFront

variable {eof t u : Token} {r : List Token}

/-! ## Operands -/

theorem parsePrefix_unary {op : UnOp} (hop : unOp? t.kind = some op) :
    parsePrefix eof (t :: r) =
      ((parseExpr eof prefixPower r).map fun e => .unary op e (t.span.through e.span)).after t := by
  rw [parsePrefix.eq_def]
  simp only [hop]

theorem parsePrefix_intLit (hk : t.kind = .intLit) :
    parsePrefix eof (t :: r) = (Reading.ok (.int (digitsValue t.text.toList) t.span) r).after t := by
  rw [parsePrefix.eq_def]
  simp only [hk, unOp?]

theorem parsePrefix_stringLit (hk : t.kind = .stringLit) :
    parsePrefix eof (t :: r) = (Reading.ok (.str t.text t.span) r).after t := by
  rw [parsePrefix.eq_def]
  simp only [hk, unOp?]

theorem parsePrefix_true (hk : t.kind = .kwTrue) :
    parsePrefix eof (t :: r) = (Reading.ok (.bool true t.span) r).after t := by
  rw [parsePrefix.eq_def]
  simp only [hk, unOp?]

theorem parsePrefix_false (hk : t.kind = .kwFalse) :
    parsePrefix eof (t :: r) = (Reading.ok (.bool false t.span) r).after t := by
  rw [parsePrefix.eq_def]
  simp only [hk, unOp?]

theorem parsePrefix_paren (hk : t.kind = .lparen) :
    parsePrefix eof (t :: r) =
      ((parseExpr eof 0 r).andThen fun e s _ => (expect eof .rparen s).map fun _ => e).after t := by
  rw [parsePrefix.eq_def]
  simp only [hk, unOp?]

theorem parsePrefix_call (hk : t.kind = .ident) (hu : u.kind = .lparen) :
    parsePrefix eof (t :: u :: r) =
      (((parseArgs eof r).map fun (args, close) =>
        .call t.ident args (t.span.through close.span)).after u).after t := by
  rw [parsePrefix.eq_def]
  simp only [hk, hu, unOp?, if_true]

theorem parsePrefix_loc (hk : t.kind = .ident) (hu : u.kind ≠ .lparen) :
    parsePrefix eof (t :: u :: r) = ((locRest eof (.var t.ident) (u :: r)).map .loc).after t := by
  rw [parsePrefix.eq_def]
  simp only [hk, hu, unOp?, if_false]

theorem parsePrefix_var (hk : t.kind = .ident) :
    parsePrefix eof [t] = (Reading.ok (.loc (.var t.ident)) []).after t := by
  rw [parsePrefix.eq_def]
  simp only [hk, unOp?]

/-! ## Operators -/

theorem infixLoop_nil {m : Nat} {left : Expr} {flag : Bool} :
    infixLoop eof m left flag [] = .ok left [] := by
  rw [infixLoop.eq_def]

theorem infixLoop_none {m : Nat} {left : Expr} {flag : Bool} (hop : Infix.ofKind? t.kind = none) :
    infixLoop eof m left flag (t :: r) = .ok left (t :: r) := by
  rw [infixLoop.eq_def]
  simp only [hop]

theorem infixLoop_weak {m : Nat} {left : Expr} {flag : Bool} {op : Infix}
    (hop : Infix.ofKind? t.kind = some op) (hlt : op.leftPower < m) :
    infixLoop eof m left flag (t :: r) = .ok left (t :: r) := by
  rw [infixLoop.eq_def]
  simp only [hop, hlt, if_true]

theorem infixLoop_chained {m : Nat} {left : Expr} {op : Infix}
    (hop : Infix.ofKind? t.kind = some op) (hge : ¬op.leftPower < m) (hc : op.isComparison = true) :
    infixLoop eof m left true (t :: r) = .fail (.chainedComparison t) (t :: r) := by
  rw [infixLoop.eq_def]
  simp only [hop, hge, hc, if_false, Bool.and_self, if_true]

theorem infixLoop_assign {m : Nat} {left : Expr} {flag : Bool}
    (hop : Infix.ofKind? t.kind = some .assign) (hge : ¬Infix.assign.leftPower < m) :
    infixLoop eof m left flag (t :: r) =
      ((parseExpr eof Infix.assign.rightPower r).andThen fun right s _ =>
        match left.asLoc? with
        | some target => infixLoop eof m (.assign target right (left.span.through right.span)) false s
        | none => .fail (.assignTarget t) s).after t := by
  rw [infixLoop.eq_def]
  -- split on the target first: the two sides may read it through different matchers
  cases left.asLoc? <;>
    simp only [hop, hge, if_false, Infix.isComparison, Bool.false_and, Bool.false_eq_true]

theorem infixLoop_binary {m : Nat} {left : Expr} {flag : Bool} {b : BinOp}
    (hop : Infix.ofKind? t.kind = some (.binary b)) (hge : ¬(Infix.binary b).leftPower < m)
    (hc : ¬(b.isComparison = true ∧ flag = true)) :
    infixLoop eof m left flag (t :: r) =
      ((parseExpr eof (Infix.binary b).rightPower r).andThen fun right s _ =>
        infixLoop eof m (.binary left b right (left.span.through right.span)) b.isComparison s).after t := by
  rw [infixLoop.eq_def]
  have hc' : (b.isComparison && flag) = false := by
    cases hb : b.isComparison <;> cases flag <;> simp_all
  simp only [hop, hge, if_false, Infix.isComparison, hc', Bool.false_eq_true]

/-! ## Arguments -/

theorem parseArgs_close (hk : (current eof r).kind = .rparen) :
    parseArgs eof r = (expect eof .rparen r).map fun c => ([], c) := by
  rw [parseArgs.eq_def]
  simp only [hk, if_true]

theorem parseArgs_some (hk : (current eof r).kind ≠ .rparen) :
    parseArgs eof r = (parseExpr eof 0 r).andThen fun a s _ => argsRest eof [a] s := by
  rw [parseArgs.eq_def]
  simp only [hk, if_false]

theorem argsRest_comma {acc : List Expr} (hk : t.kind = .comma) :
    argsRest eof acc (t :: r) =
      ((parseExpr eof 0 r).andThen fun a s _ => argsRest eof (acc ++ [a]) s).after t := by
  rw [argsRest.eq_def]
  simp only [hk, if_true]

theorem argsRest_close {acc : List Expr} (hk : t.kind ≠ .comma) :
    argsRest eof acc (t :: r) = (expect eof .rparen (t :: r)).map fun c => (acc, c) := by
  rw [argsRest.eq_def]
  simp only [hk, if_false]

theorem argsRest_nil {acc : List Expr} :
    argsRest eof acc [] = (expect eof .rparen []).map fun c => (acc, c) := by
  rw [argsRest.eq_def]

/-! ## Locations -/

theorem locRest_dot {base : Loc} (hk : t.kind = .dot) :
    locRest eof base (t :: r) =
      ((expectIdent eof r).andThen fun n s _ =>
        locRest eof (.field base n (base.span.through n.span) false none) s).after t := by
  rw [locRest.eq_def]
  simp only [hk, if_true]

theorem locRest_other {base : Loc} (hk : t.kind ≠ .dot) :
    locRest eof base (t :: r) = .ok base (t :: r) := by
  rw [locRest.eq_def]
  simp only [hk, if_false]

theorem locRest_nil {base : Loc} : locRest eof base [] = .ok base [] := by
  rw [locRest.eq_def]

end EggFront
