import EggFront.Syntax.Parse

/-!
# The grammar of egg

The grammar that egg programs are written in, as relations between a *word*
(the kinds and texts of a program's tokens, in order) and the tree it denotes:

```
program     ::= decl*
decl        ::= varDecl | fnDecl | structDecl
varDecl     ::= type ID ';' | 'struct' ID ID ';'
structDecl  ::= 'struct' ID '{' varDecl+ '}' ';'
fnDecl      ::= type ID '(' [formal (',' formal)*] ')' '{' varDecl* stmt* '}'
formal      ::= type ID
type        ::= 'int' | 'bool' | 'void'
stmt        ::= loc '=' exp ';' | loc '++' ';' | loc '--' ';'
              | 'cin' '>>' loc ';' | 'cout' '<<' exp ';'
              | 'if' '(' exp ')' block ['else' block]
              | 'while' '(' exp ')' block | 'repeat' '(' exp ')' block
              | 'return' [exp] ';' | call ';'
block       ::= '{' varDecl* stmt* '}'
exp         ::= loc '=' exp | exp binop exp | '!' exp | '-' exp | term
term        ::= loc | INTLIT | STRLIT | 'true' | 'false' | '(' exp ')' | call
call        ::= ID '(' [exp (',' exp)*] ')'
loc         ::= ID | loc '.' ID
```

## Precedence

`exp` is ambiguous as written; the precedence list (lowest first: `=` grouping
to the right, `||`, `&&`, the comparisons, which do not group, `+ -`, `* /`,
prefix `! -`) settles it. Here it is built into the rules as levels, the usual
way: an expression of level `ℓ` has no operator looser than level `ℓ` outside
parentheses.

| level | rules |
|---|---|
| 0 | `target '=' exp₀` |
| 1 | `exp₁ '||' exp₂` |
| 2 | `exp₂ '&&' exp₃` |
| 3 | `exp₄ cmp exp₄` |
| 4 | `exp₄ ('+' \| '-') exp₅` |
| 5 | `exp₅ ('*' \| '/') exp₆` |
| 6 | `'!' exp₆ \| '-' exp₆ \| term` |

and every expression of level `ℓ + 1` is one of level `ℓ`.

## The trees

A rule builds the node the parser builds: parentheses leave no node, an integer
literal holds the number its digits denote, names are unresolved. Spans are no
part of the grammar, so every span of a tree is free; trees that differ only in
spans are compared with `erase`.

The grammar has one parameter, `parens`: whether an assignment target may stand
in parentheses, as in `(x) = 1`. The grammar above says no (`parens = false`);
the parser reads such targets, which is the grammar with `parens = true`.
-/

namespace EggFront

/-- What the grammar sees of a token: its kind and its text. -/
abbrev Lexeme := TokenKind × String

/-- The kind and text of a token. -/
def Token.lexeme (t : Token) : Lexeme := (t.kind, t.text)

/-- The word a list of tokens spells. -/
def lexemes (ts : List Token) : List Lexeme := ts.map Token.lexeme

@[simp] theorem lexemes_nil : lexemes [] = [] := rfl

@[simp] theorem lexemes_cons (t : Token) (ts : List Token) :
    lexemes (t :: ts) = (t.kind, t.text) :: lexemes ts := rfl

@[simp] theorem lexemes_append (a b : List Token) :
    lexemes (a ++ b) = lexemes a ++ lexemes b := List.map_append

theorem lexemes_eq_nil {c : List Token} (h : lexemes c = []) : c = [] :=
  List.map_eq_nil_iff.1 h

theorem lexemes_eq_cons {c : List Token} {k : TokenKind} {x : String} {w : List Lexeme}
    (h : lexemes c = (k, x) :: w) :
    ∃ t c', c = t :: c' ∧ t.kind = k ∧ t.text = x ∧ lexemes c' = w := by
  obtain ⟨t, c', rfl, ht, hw⟩ := List.map_eq_cons_iff.1 h
  simp only [Token.lexeme, Prod.mk.injEq] at ht
  exact ⟨t, c', rfl, ht.1, ht.2, hw⟩

theorem lexemes_eq_append {c : List Token} {w₁ w₂ : List Lexeme} (h : lexemes c = w₁ ++ w₂) :
    ∃ c₁ c₂, c = c₁ ++ c₂ ∧ lexemes c₁ = w₁ ∧ lexemes c₂ = w₂ :=
  List.map_eq_append_iff.1 h

namespace BinOp

/-- The kind of the token that spells an operator. -/
def kind : BinOp → TokenKind
  | or => .orOr | and => .andAnd
  | eq => .equal | ne => .notEqual | lt => .less | gt => .greater
  | le => .lessEqual | ge => .greaterEqual
  | add => .plus | sub => .minus | mul => .star | div => .slash

/-- The level of an expression that an operator joins: `||` 1, `&&` 2, the
comparisons 3, `+ -` 4, `* /` 5. -/
def level : BinOp → Nat
  | or => 1 | and => 2
  | eq | ne | lt | gt | le | ge => 3
  | add | sub => 4
  | mul | div => 5

end BinOp

/-- The kind of the token that spells a prefix operator. -/
def UnOp.kind : UnOp → TokenKind
  | .not => .bang
  | .neg => .minus

@[simp] theorem BinOp.kind_ne_eof (op : BinOp) : op.kind ≠ .eof := by cases op <;> decide

@[simp] theorem BinOp.kind_ne_assign (op : BinOp) : op.kind ≠ .assign := by cases op <;> decide

@[simp] theorem UnOp.kind_ne_eof (op : UnOp) : op.kind ≠ .eof := by cases op <;> decide

@[simp] theorem UnOp.kind_ne_assign (op : UnOp) : op.kind ≠ .assign := by cases op <;> decide

namespace Grammar

/-- `loc ::= ID | loc '.' ID` -/
inductive LocOf : List Lexeme → Loc → Prop
  | var {n : String} {s : Span} : LocOf [(.ident, n)] (.var ⟨n, s, none⟩)
  | field {w : List Lexeme} {l : Loc} {x n : String} {s s' : Span} :
      LocOf w l → LocOf (w ++ [(.dot, x), (.ident, n)]) (.field l ⟨n, s, none⟩ s' false none)

/-- What may stand left of `=` in an expression: a location, and, when `parens`
holds, a target in parentheses. -/
inductive TargetOf (parens : Bool) : List Lexeme → Loc → Prop
  | loc {w : List Lexeme} {l : Loc} : LocOf w l → TargetOf parens w l
  | paren {w : List Lexeme} {l : Loc} {x y : String} : parens = true →
      TargetOf parens w l → TargetOf parens ((.lparen, x) :: w ++ [(.rparen, y)]) l

mutual

/-- `exp` at level `ℓ` (see the table in the module header). -/
inductive ExpOf (parens : Bool) : Nat → List Lexeme → Expr → Prop
  | term {w : List Lexeme} {e : Expr} : TermOf parens w e → ExpOf parens 6 w e
  | unary {w : List Lexeme} {e : Expr} {op : UnOp} {x : String} {s : Span} :
      ExpOf parens 6 w e → ExpOf parens 6 ((op.kind, x) :: w) (.unary op e s)
  | binary {w₁ w₂ : List Lexeme} {l r : Expr} {op : BinOp} {x : String} {s : Span} :
      op.isComparison = false → ExpOf parens op.level w₁ l → ExpOf parens (op.level + 1) w₂ r →
      ExpOf parens op.level (w₁ ++ (op.kind, x) :: w₂) (.binary l op r s)
  | compare {w₁ w₂ : List Lexeme} {l r : Expr} {op : BinOp} {x : String} {s : Span} :
      op.isComparison = true → ExpOf parens 4 w₁ l → ExpOf parens 4 w₂ r →
      ExpOf parens 3 (w₁ ++ (op.kind, x) :: w₂) (.binary l op r s)
  | assign {w₁ w₂ : List Lexeme} {t : Loc} {v : Expr} {x : String} {s : Span} :
      TargetOf parens w₁ t → ExpOf parens 0 w₂ v →
      ExpOf parens 0 (w₁ ++ (.assign, x) :: w₂) (.assign t v s)
  | lift {ℓ : Nat} {w : List Lexeme} {e : Expr} :
      ExpOf parens (ℓ + 1) w e → ℓ < 6 → ExpOf parens ℓ w e

/-- `term`: literals, locations, calls and expressions in parentheses. -/
inductive TermOf (parens : Bool) : List Lexeme → Expr → Prop
  | intLit {x : String} {s : Span} : TermOf parens [(.intLit, x)] (.int (digitsValue x.toList) s)
  | strLit {x : String} {s : Span} : TermOf parens [(.stringLit, x)] (.str x s)
  | trueLit {x : String} {s : Span} : TermOf parens [(.kwTrue, x)] (.bool true s)
  | falseLit {x : String} {s : Span} : TermOf parens [(.kwFalse, x)] (.bool false s)
  | loc {w : List Lexeme} {l : Loc} : LocOf w l → TermOf parens w (.loc l)
  | paren {w : List Lexeme} {e : Expr} {x y : String} :
      ExpOf parens 0 w e → TermOf parens ((.lparen, x) :: w ++ [(.rparen, y)]) e
  | call {w : List Lexeme} {args : List Expr} {n x y : String} {s s' : Span} :
      ArgsOf parens w args →
      TermOf parens ((.ident, n) :: (.lparen, x) :: w ++ [(.rparen, y)]) (.call ⟨n, s, none⟩ args s')

/-- `[exp (',' exp)*]`: the arguments of a call. -/
inductive ArgsOf (parens : Bool) : List Lexeme → List Expr → Prop
  | none : ArgsOf parens [] []
  | some {w w' : List Lexeme} {e : Expr} {es : List Expr} :
      ExpOf parens 0 w e → MoreArgsOf parens w' es → ArgsOf parens (w ++ w') (e :: es)

/-- `(',' exp)*` -/
inductive MoreArgsOf (parens : Bool) : List Lexeme → List Expr → Prop
  | nil : MoreArgsOf parens [] []
  | comma {w w' : List Lexeme} {e : Expr} {es : List Expr} {x : String} :
      ExpOf parens 0 w e → MoreArgsOf parens w' es → MoreArgsOf parens ((.comma, x) :: w ++ w') (e :: es)

end

/-- `type ::= 'int' | 'bool' | 'void'`, one token. -/
inductive BaseTypeOf : Lexeme → TypeExpr → Prop
  | int {x : String} {s : Span} : BaseTypeOf (.kwInt, x) (.int s)
  | bool {x : String} {s : Span} : BaseTypeOf (.kwBool, x) (.bool s)
  | void {x : String} {s : Span} : BaseTypeOf (.kwVoid, x) (.void s)

/-- `varDecl ::= type ID ';' | 'struct' ID ID ';'` -/
inductive VarDeclOf : List Lexeme → VarDecl → Prop
  | base {a : Lexeme} {ty : TypeExpr} {n y : String} {s s' : Span} : BaseTypeOf a ty →
      VarDeclOf [a, (.ident, n), (.semicolon, y)] ⟨ty, ⟨n, s, none⟩, s'⟩
  | struct {x t n y : String} {s s' s'' s''' : Span} :
      VarDeclOf [(.kwStruct, x), (.ident, t), (.ident, n), (.semicolon, y)]
        ⟨.struct ⟨t, s, none⟩ s', ⟨n, s'', none⟩, s'''⟩

/-- `varDecl*` -/
inductive VarDeclsOf : List Lexeme → List VarDecl → Prop
  | nil : VarDeclsOf [] []
  | cons {w w' : List Lexeme} {d : VarDecl} {ds : List VarDecl} :
      VarDeclOf w d → VarDeclsOf w' ds → VarDeclsOf (w ++ w') (d :: ds)

mutual

/-- `stmt` -/
inductive StmtOf (parens : Bool) : List Lexeme → Stmt → Prop
  | assign {w₁ w₂ : List Lexeme} {t : Loc} {v : Expr} {x y : String} {s s' : Span} :
      LocOf w₁ t → ExpOf parens 0 w₂ v →
      StmtOf parens (w₁ ++ (.assign, x) :: w₂ ++ [(.semicolon, y)]) (.assign t v s s')
  | increment {w : List Lexeme} {t : Loc} {x y : String} {s : Span} :
      LocOf w t → StmtOf parens (w ++ [(.plusPlus, x), (.semicolon, y)]) (.increment t s)
  | decrement {w : List Lexeme} {t : Loc} {x y : String} {s : Span} :
      LocOf w t → StmtOf parens (w ++ [(.minusMinus, x), (.semicolon, y)]) (.decrement t s)
  | read {w : List Lexeme} {t : Loc} {a b y : String} {s : Span} :
      LocOf w t → StmtOf parens ((.kwCin, a) :: (.read, b) :: w ++ [(.semicolon, y)]) (.read t s)
  | write {w : List Lexeme} {v : Expr} {a b y : String} {s : Span} :
      ExpOf parens 0 w v →
      StmtOf parens ((.kwCout, a) :: (.write, b) :: w ++ [(.semicolon, y)]) (.write v s)
  | ifThen {w w' : List Lexeme} {c : Expr} {ds : List VarDecl} {ss : List Stmt} {a b y : String}
      {s : Span} : ExpOf parens 0 w c → BlockOf parens w' ds ss →
      StmtOf parens ((.kwIf, a) :: (.lparen, b) :: w ++ (.rparen, y) :: w') (.ifThen c ds ss s)
  | ifThenElse {w w' w'' : List Lexeme} {c : Expr} {ds eds : List VarDecl} {ss ess : List Stmt}
      {a b y z : String} {s : Span} :
      ExpOf parens 0 w c → BlockOf parens w' ds ss → BlockOf parens w'' eds ess →
      StmtOf parens ((.kwIf, a) :: (.lparen, b) :: w ++ (.rparen, y) :: w' ++ (.kwElse, z) :: w'')
        (.ifThenElse c ds ss eds ess s)
  | whileLoop {w w' : List Lexeme} {c : Expr} {ds : List VarDecl} {ss : List Stmt} {a b y : String}
      {s : Span} : ExpOf parens 0 w c → BlockOf parens w' ds ss →
      StmtOf parens ((.kwWhile, a) :: (.lparen, b) :: w ++ (.rparen, y) :: w') (.whileLoop c ds ss s)
  | repeatLoop {w w' : List Lexeme} {c : Expr} {ds : List VarDecl} {ss : List Stmt}
      {a b y : String} {s : Span} : ExpOf parens 0 w c → BlockOf parens w' ds ss →
      StmtOf parens ((.kwRepeat, a) :: (.lparen, b) :: w ++ (.rparen, y) :: w')
        (.repeatLoop c ds ss s)
  | call {w : List Lexeme} {args : List Expr} {n x y z : String} {s s' s'' : Span} :
      ArgsOf parens w args →
      StmtOf parens ((.ident, n) :: (.lparen, x) :: w ++ [(.rparen, y), (.semicolon, z)])
        (.call ⟨n, s, none⟩ args s' s'')
  | retNone {a y : String} {s : Span} :
      StmtOf parens [(.kwReturn, a), (.semicolon, y)] (.ret none s)
  | retSome {w : List Lexeme} {v : Expr} {a y : String} {s : Span} :
      ExpOf parens 0 w v → StmtOf parens ((.kwReturn, a) :: w ++ [(.semicolon, y)]) (.ret (some v) s)

/-- `stmt*` -/
inductive StmtsOf (parens : Bool) : List Lexeme → List Stmt → Prop
  | nil : StmtsOf parens [] []
  | cons {w w' : List Lexeme} {st : Stmt} {ss : List Stmt} :
      StmtOf parens w st → StmtsOf parens w' ss → StmtsOf parens (w ++ w') (st :: ss)

/-- `block ::= '{' varDecl* stmt* '}'` -/
inductive BlockOf (parens : Bool) : List Lexeme → List VarDecl → List Stmt → Prop
  | mk {w w' : List Lexeme} {ds : List VarDecl} {ss : List Stmt} {a b : String} :
      VarDeclsOf w ds → StmtsOf parens w' ss →
      BlockOf parens ((.lcurly, a) :: w ++ w' ++ [(.rcurly, b)]) ds ss

end

/-- `formal ::= type ID` -/
inductive ParamOf : List Lexeme → Param → Prop
  | mk {a : Lexeme} {ty : TypeExpr} {n : String} {s s' : Span} : BaseTypeOf a ty →
      ParamOf [a, (.ident, n)] ⟨ty, ⟨n, s, none⟩, s'⟩

/-- `(',' formal)*` -/
inductive MoreParamsOf : List Lexeme → List Param → Prop
  | nil : MoreParamsOf [] []
  | comma {w w' : List Lexeme} {p : Param} {ps : List Param} {x : String} :
      ParamOf w p → MoreParamsOf w' ps → MoreParamsOf ((.comma, x) :: w ++ w') (p :: ps)

/-- `[formal (',' formal)*]` -/
inductive ParamsOf : List Lexeme → List Param → Prop
  | none : ParamsOf [] []
  | some {w w' : List Lexeme} {p : Param} {ps : List Param} :
      ParamOf w p → MoreParamsOf w' ps → ParamsOf (w ++ w') (p :: ps)

/-- `decl`: a variable, a function or a struct type. -/
inductive DeclOf (parens : Bool) : List Lexeme → Decl → Prop
  | var {w : List Lexeme} {d : VarDecl} : VarDeclOf w d → DeclOf parens w (.var d)
  | fn {a : Lexeme} {w w' : List Lexeme} {ty : TypeExpr} {ps : List Param} {ds : List VarDecl}
      {ss : List Stmt} {n x y : String} {s s' s'' : Span} :
      BaseTypeOf a ty → ParamsOf w ps → BlockOf parens w' ds ss →
      DeclOf parens (a :: (.ident, n) :: (.lparen, x) :: w ++ (.rparen, y) :: w')
        (.fn ⟨ty, ⟨n, s, none⟩, ps, ds, ss, s', s''⟩)
  | struct {w w' : List Lexeme} {d : VarDecl} {ds : List VarDecl} {a n b c e : String}
      {s s' : Span} : VarDeclOf w d → VarDeclsOf w' ds →
      DeclOf parens ((.kwStruct, a) :: (.ident, n) :: (.lcurly, b) :: w ++ w' ++
        [(.rcurly, c), (.semicolon, e)]) (.struct ⟨⟨n, s, none⟩, d :: ds, s'⟩)

/-- `decl*` -/
inductive DeclsOf (parens : Bool) : List Lexeme → List Decl → Prop
  | nil : DeclsOf parens [] []
  | cons {w w' : List Lexeme} {d : Decl} {ds : List Decl} :
      DeclOf parens w d → DeclsOf parens w' ds → DeclsOf parens (w ++ w') (d :: ds)

/-- `program ::= decl*`; the program's own span is free too. -/
inductive ProgramOf (parens : Bool) : List Lexeme → Program → Prop
  | mk {w : List Lexeme} {ds : List Decl} {s : Span} :
      DeclsOf parens w ds → ProgramOf parens w ⟨ds, s⟩

/-! ## Levels -/

variable {parens : Bool}

/-- Every level is at most 6. -/
theorem ExpOf.level_le {ℓ : Nat} {w : List Lexeme} {e : Expr} : ExpOf parens ℓ w e → ℓ ≤ 6
  | .term _ | .unary _ => Nat.le_refl 6
  | .binary _ _ h => Nat.le_trans (Nat.le_succ _) h.level_le
  | .compare .. => by decide
  | .assign .. => Nat.zero_le 6
  | .lift _ h => Nat.le_of_lt h

/-- An expression of one level is one of every looser level. -/
theorem ExpOf.lower {ℓ L : Nat} {w : List Lexeme} {e : Expr} (h : ExpOf parens L w e)
    (hl : ℓ ≤ L) : ExpOf parens ℓ w e := by
  obtain ⟨d, rfl⟩ := Nat.exists_eq_add_of_le hl
  induction d generalizing ℓ with
  | zero => exact h
  | succ d ih =>
    have h6 := h.level_le
    rw [show ℓ + (d + 1) = ℓ + 1 + d by omega] at h
    exact .lift (ih h (by omega)) (by omega)

/-- A target is a term: a location, or a target in parentheses. -/
theorem TargetOf.expOf {w : List Lexeme} {l : Loc} : TargetOf parens w l → ExpOf parens 6 w (.loc l)
  | .loc h => .term (.loc h)
  | .paren _ h => .term (.paren (h.expOf.lower (Nat.zero_le 6)))

mutual

/-- An expression that is a bare location is a target, when targets may stand
in parentheses. -/
theorem ExpOf.targetOf {ℓ : Nat} {w : List Lexeme} {e : Expr} {l : Loc} :
    ExpOf true ℓ w e → e = .loc l → TargetOf true w l
  | .term h, he => h.targetOf he
  | .lift h _, he => h.targetOf he
  | .unary _, he | .binary .., he | .compare .., he | .assign .., he => by cases he

theorem TermOf.targetOf {w : List Lexeme} {e : Expr} {l : Loc} :
    TermOf true w e → e = .loc l → TargetOf true w l
  | .loc h, he => by cases he; exact .loc h
  | .paren h, he => .paren rfl (h.targetOf he)
  | .intLit, he | .strLit, he | .trueLit, he | .falseLit, he | .call _, he => by cases he

end

/-! ## Words are not empty -/

theorem LocOf.ne_nil {w : List Lexeme} {l : Loc} : LocOf w l → w ≠ []
  | .var => List.cons_ne_nil _ _
  | .field _ => by simp

mutual

theorem ExpOf.ne_nil {ℓ : Nat} {w : List Lexeme} {e : Expr} : ExpOf parens ℓ w e → w ≠ []
  | .term h => h.ne_nil
  | .lift h _ => h.ne_nil
  | .unary _ => List.cons_ne_nil _ _
  | .binary .. | .compare .. | .assign .. => by simp

theorem TermOf.ne_nil {w : List Lexeme} {e : Expr} : TermOf parens w e → w ≠ []
  | .loc h => h.ne_nil
  | .intLit | .strLit | .trueLit | .falseLit | .paren _ | .call _ => List.cons_ne_nil _ _

end

/-! ## How words start -/

/-- The kinds of token an expression can start with. -/
def startsOperand : TokenKind → Bool
  | .bang | .minus | .intLit | .stringLit | .kwTrue | .kwFalse | .ident | .lparen => true
  | _ => false

theorem startsOperand_unOp (op : UnOp) : startsOperand op.kind = true := by
  cases op <;> rfl

theorem LocOf.head {w : List Lexeme} {l : Loc} : LocOf w l → ∃ n w', w = (.ident, n) :: w'
  | .var => ⟨_, [], rfl⟩
  | .field h => by
    obtain ⟨n, w', rfl⟩ := h.head
    exact ⟨n, _, rfl⟩

theorem TargetOf.head {w : List Lexeme} {l : Loc} :
    TargetOf parens w l → ∃ x w', w = x :: w' ∧ startsOperand x.1
  | .loc h => by
    obtain ⟨n, w', rfl⟩ := h.head
    exact ⟨_, w', rfl, rfl⟩
  | .paren _ _ => ⟨_, _, rfl, rfl⟩

mutual

theorem ExpOf.head {ℓ : Nat} {w : List Lexeme} {e : Expr} :
    ExpOf parens ℓ w e → ∃ x w', w = x :: w' ∧ startsOperand x.1
  | .term h => h.head
  | .lift h _ => h.head
  | .unary _ => ⟨_, _, rfl, startsOperand_unOp _⟩
  | .binary _ h _ | .compare _ h _ => by
    obtain ⟨x, w', rfl, hx⟩ := h.head
    exact ⟨x, _, rfl, hx⟩
  | .assign h _ => by
    obtain ⟨x, w', rfl, hx⟩ := h.head
    exact ⟨x, _, rfl, hx⟩

theorem TermOf.head {w : List Lexeme} {e : Expr} :
    TermOf parens w e → ∃ x w', w = x :: w' ∧ startsOperand x.1
  | .loc h => by
    obtain ⟨n, w', rfl⟩ := h.head
    exact ⟨_, w', rfl, rfl⟩
  | .intLit | .strLit | .trueLit | .falseLit | .paren _ | .call _ => ⟨_, _, rfl, rfl⟩

end

theorem MoreArgsOf.head {w : List Lexeme} {es : List Expr} :
    MoreArgsOf parens w es → ∀ x ∈ w.head?, x.1 = .comma
  | .nil => by simp
  | .comma _ _ => by simp

/-- The kinds of token a statement can start with. -/
def startsStatement : TokenKind → Bool
  | .kwCin | .kwCout | .kwIf | .kwWhile | .kwRepeat | .kwReturn | .ident => true
  | _ => false

theorem StmtOf.head {w : List Lexeme} {st : Stmt} :
    StmtOf parens w st → ∃ x w', w = x :: w' ∧ startsStatement x.1
  | .assign h _ | .increment h | .decrement h => by
    obtain ⟨n, w', rfl⟩ := h.head
    exact ⟨_, _, rfl, rfl⟩
  | .read _ | .write _ | .ifThen _ _ | .ifThenElse _ _ _ | .whileLoop _ _ | .repeatLoop _ _
  | .call _ | .retNone | .retSome _ => ⟨_, _, rfl, rfl⟩

theorem StmtsOf.head {w : List Lexeme} {ss : List Stmt} :
    StmtsOf parens w ss → ∀ x ∈ w.head?, startsStatement x.1
  | .nil => by simp
  | .cons h _ => by
    obtain ⟨x, w', rfl, hx⟩ := h.head
    simpa using hx

theorem BaseTypeOf.kind {a : Lexeme} {ty : TypeExpr} :
    BaseTypeOf a ty → a.1 = .kwInt ∨ a.1 = .kwBool ∨ a.1 = .kwVoid
  | .int => .inl rfl
  | .bool => .inr (.inl rfl)
  | .void => .inr (.inr rfl)

/-! ## Words hold no end marker

A program ends at its first token of kind `eof`, so no word of the grammar holds
one: every rule spells its tokens by kinds that are not `eof`. -/

/-- No lexeme of the word is an end marker. -/
def Unmarked (w : List Lexeme) : Prop := ∀ x ∈ w, x.1 ≠ .eof

@[simp] theorem unmarked_nil : Unmarked [] := by simp [Unmarked]

@[simp] theorem unmarked_cons {x : Lexeme} {w : List Lexeme} :
    Unmarked (x :: w) ↔ x.1 ≠ .eof ∧ Unmarked w := by
  simp [Unmarked]

@[simp] theorem unmarked_append {w w' : List Lexeme} :
    Unmarked (w ++ w') ↔ Unmarked w ∧ Unmarked w' := by
  simp only [Unmarked, List.mem_append, or_imp, forall_and]

theorem unmarked_lexemes {c : List Token} : Unmarked (lexemes c) ↔ ∀ t ∈ c, t.kind ≠ .eof := by
  simp [Unmarked, lexemes, Token.lexeme]

theorem BaseTypeOf.kind_ne_eof {a : Lexeme} {ty : TypeExpr} (h : BaseTypeOf a ty) : a.1 ≠ .eof := by
  rcases h.kind with h | h | h <;> simp [h]

theorem LocOf.unmarked {w : List Lexeme} {l : Loc} : LocOf w l → Unmarked w
  | .var => by simp
  | .field h => by simp [h.unmarked]

theorem TargetOf.unmarked {w : List Lexeme} {l : Loc} : TargetOf parens w l → Unmarked w
  | .loc h => h.unmarked
  | .paren _ h => by simp [h.unmarked]

mutual

theorem ExpOf.unmarked {ℓ : Nat} {w : List Lexeme} {e : Expr} : ExpOf parens ℓ w e → Unmarked w
  | .term h => h.unmarked
  | .lift h _ => h.unmarked
  | .unary h => by simp [h.unmarked]
  | .binary _ h h' | .compare _ h h' => by simp [h.unmarked, h'.unmarked]
  | .assign h h' => by simp [h.unmarked, h'.unmarked]

theorem TermOf.unmarked {w : List Lexeme} {e : Expr} : TermOf parens w e → Unmarked w
  | .intLit | .strLit | .trueLit | .falseLit => by simp
  | .loc h => h.unmarked
  | .paren h => by simp [h.unmarked]
  | .call h => by simp [h.unmarked]

theorem ArgsOf.unmarked {w : List Lexeme} {es : List Expr} : ArgsOf parens w es → Unmarked w
  | .none => unmarked_nil
  | .some h h' => by simp [h.unmarked, h'.unmarked]

theorem MoreArgsOf.unmarked {w : List Lexeme} {es : List Expr} : MoreArgsOf parens w es → Unmarked w
  | .nil => unmarked_nil
  | .comma h h' => by simp [h.unmarked, h'.unmarked]

end

theorem VarDeclOf.unmarked {w : List Lexeme} {d : VarDecl} : VarDeclOf w d → Unmarked w
  | .base h => by simp [h.kind_ne_eof]
  | .struct => by simp

theorem VarDeclsOf.unmarked {w : List Lexeme} {ds : List VarDecl} : VarDeclsOf w ds → Unmarked w
  | .nil => unmarked_nil
  | .cons h h' => by simp [h.unmarked, h'.unmarked]

mutual

theorem StmtOf.unmarked {w : List Lexeme} {st : Stmt} : StmtOf parens w st → Unmarked w
  | .assign h h' => by simp [h.unmarked, h'.unmarked]
  | .increment h | .decrement h | .read h => by simp [h.unmarked]
  | .write h | .retSome h => by simp [h.unmarked]
  | .ifThen h b | .whileLoop h b | .repeatLoop h b => by simp [h.unmarked, b.unmarked]
  | .ifThenElse h b b' => by simp [h.unmarked, b.unmarked, b'.unmarked]
  | .call h => by simp [h.unmarked]
  | .retNone => by simp

theorem StmtsOf.unmarked {w : List Lexeme} {ss : List Stmt} : StmtsOf parens w ss → Unmarked w
  | .nil => unmarked_nil
  | .cons h h' => by simp [h.unmarked, h'.unmarked]

theorem BlockOf.unmarked {w : List Lexeme} {ds : List VarDecl} {ss : List Stmt} :
    BlockOf parens w ds ss → Unmarked w
  | .mk h h' => by simp [h.unmarked, h'.unmarked]

end

theorem ParamOf.unmarked {w : List Lexeme} {p : Param} : ParamOf w p → Unmarked w
  | .mk h => by simp [h.kind_ne_eof]

theorem MoreParamsOf.unmarked {w : List Lexeme} {ps : List Param} : MoreParamsOf w ps → Unmarked w
  | .nil => unmarked_nil
  | .comma h h' => by simp [h.unmarked, h'.unmarked]

theorem ParamsOf.unmarked {w : List Lexeme} {ps : List Param} : ParamsOf w ps → Unmarked w
  | .none => unmarked_nil
  | .some h h' => by simp [h.unmarked, h'.unmarked]

theorem DeclOf.unmarked {w : List Lexeme} {d : Decl} : DeclOf parens w d → Unmarked w
  | .var h => h.unmarked
  | .fn ha hp hb => by simp [ha.kind_ne_eof, hp.unmarked, hb.unmarked]
  | .struct h h' => by simp [h.unmarked, h'.unmarked]

theorem DeclsOf.unmarked {w : List Lexeme} {ds : List Decl} : DeclsOf parens w ds → Unmarked w
  | .nil => unmarked_nil
  | .cons h h' => by simp [h.unmarked, h'.unmarked]

/-- The tokens that spell a program of the grammar hold no end marker. -/
theorem ProgramOf.unmarked {w : List Lexeme} {p : Program} : ProgramOf parens w p → Unmarked w
  | .mk h => h.unmarked

/-! ## Targets in parentheses

The grammar with targets in parentheses holds every word and tree of the one
without them. The one without them has every `=` right after a name, the end of
the location it assigns (`ProgramOf.assignsFollowNames`); so `(x) = 1` is a word
of the first only. -/

theorem TargetOf.withParens {w : List Lexeme} {l : Loc} : TargetOf false w l → TargetOf true w l
  | .loc h => .loc h
  | .paren h _ => absurd h Bool.false_ne_true

mutual

theorem ExpOf.withParens {ℓ : Nat} {w : List Lexeme} {e : Expr} :
    ExpOf false ℓ w e → ExpOf true ℓ w e
  | .term h => .term h.withParens
  | .unary h => .unary h.withParens
  | .binary hc h h' => .binary hc h.withParens h'.withParens
  | .compare hc h h' => .compare hc h.withParens h'.withParens
  | .assign h h' => .assign h.withParens h'.withParens
  | .lift h hl => .lift h.withParens hl

theorem TermOf.withParens {w : List Lexeme} {e : Expr} : TermOf false w e → TermOf true w e
  | .intLit => .intLit
  | .strLit => .strLit
  | .trueLit => .trueLit
  | .falseLit => .falseLit
  | .loc h => .loc h
  | .paren h => .paren h.withParens
  | .call h => .call h.withParens

theorem ArgsOf.withParens {w : List Lexeme} {es : List Expr} : ArgsOf false w es → ArgsOf true w es
  | .none => .none
  | .some h h' => .some h.withParens h'.withParens

theorem MoreArgsOf.withParens {w : List Lexeme} {es : List Expr} :
    MoreArgsOf false w es → MoreArgsOf true w es
  | .nil => .nil
  | .comma h h' => .comma h.withParens h'.withParens

end

mutual

theorem StmtOf.withParens {w : List Lexeme} {st : Stmt} : StmtOf false w st → StmtOf true w st
  | .assign h h' => .assign h h'.withParens
  | .increment h => .increment h
  | .decrement h => .decrement h
  | .read h => .read h
  | .write h => .write h.withParens
  | .ifThen h b => .ifThen h.withParens b.withParens
  | .ifThenElse h b b' => .ifThenElse h.withParens b.withParens b'.withParens
  | .whileLoop h b => .whileLoop h.withParens b.withParens
  | .repeatLoop h b => .repeatLoop h.withParens b.withParens
  | .call h => .call h.withParens
  | .retNone => .retNone
  | .retSome h => .retSome h.withParens

theorem StmtsOf.withParens {w : List Lexeme} {ss : List Stmt} : StmtsOf false w ss → StmtsOf true w ss
  | .nil => .nil
  | .cons h h' => .cons h.withParens h'.withParens

theorem BlockOf.withParens {w : List Lexeme} {ds : List VarDecl} {ss : List Stmt} :
    BlockOf false w ds ss → BlockOf true w ds ss
  | .mk h h' => .mk h h'.withParens

end

theorem DeclOf.withParens {w : List Lexeme} {d : Decl} : DeclOf false w d → DeclOf true w d
  | .var h => .var h
  | .fn ha hp hb => .fn ha hp hb.withParens
  | .struct h h' => .struct h h'

theorem DeclsOf.withParens {w : List Lexeme} {ds : List Decl} : DeclsOf false w ds → DeclsOf true w ds
  | .nil => .nil
  | .cons h h' => .cons h.withParens h'.withParens

/-- A program of the grammar without targets in parentheses is one of the grammar
with them, spelled by the same word. -/
theorem ProgramOf.withParens {w : List Lexeme} {p : Program} : ProgramOf false w p → ProgramOf true w p
  | .mk h => .mk h.withParens

/-- Whether every `=` of the word follows a name. -/
def assignsFollowNames : List Lexeme → Bool
  | [] => true
  | x :: w =>
    (match w with
      | y :: _ => y.1 != .assign || x.1 == .ident
      | [] => true) && assignsFollowNames w

/-- The word does not start with `=`. -/
def NoAssignFirst (w : List Lexeme) : Prop := ∀ x ∈ w.head?, x.1 ≠ .assign

@[simp] theorem noAssignFirst_nil : NoAssignFirst [] := by simp [NoAssignFirst]

@[simp] theorem noAssignFirst_cons {x : Lexeme} {w : List Lexeme} :
    NoAssignFirst (x :: w) ↔ x.1 ≠ .assign := by
  simp [NoAssignFirst]

@[simp] theorem noAssignFirst_append {u v : List Lexeme} :
    NoAssignFirst (u ++ v) ↔ NoAssignFirst u ∧ (u = [] → NoAssignFirst v) := by
  cases u <;> simp

@[simp] theorem assignsFollowNames_nil : assignsFollowNames [] = true := rfl

@[simp] theorem assignsFollowNames_singleton (x : Lexeme) : assignsFollowNames [x] = true := rfl

@[simp] theorem assignsFollowNames_cons_cons (x y : Lexeme) (w : List Lexeme) :
    assignsFollowNames (x :: y :: w) =
      ((y.1 != .assign || x.1 == .ident) && assignsFollowNames (y :: w)) := rfl

/-- A word that does not start with `=` puts no `=` after what comes before it. -/
theorem assignsFollowNames_cons {x : Lexeme} {w : List Lexeme} (hw : NoAssignFirst w) :
    assignsFollowNames (x :: w) = assignsFollowNames w := by
  cases w with
  | nil => rfl
  | cons y w =>
    have hy : y.1 ≠ .assign := by simpa using hw
    simp [hy]

/-- Joined to a word that does not start with `=`, a word adds no `=` across the joint. -/
theorem assignsFollowNames_append {u v : List Lexeme} (hv : NoAssignFirst v) :
    assignsFollowNames (u ++ v) = (assignsFollowNames u && assignsFollowNames v) := by
  induction u with
  | nil => simp
  | cons x u ih =>
    cases u with
    | nil => simp [assignsFollowNames_cons hv]
    | cons y u => simp only [List.cons_append] at ih ⊢; simp [ih, Bool.and_assoc]

theorem assignsFollowNames_of_no_assign {w : List Lexeme} (h : ∀ x ∈ w, x.1 ≠ .assign) :
    assignsFollowNames w = true := by
  induction w with
  | nil => rfl
  | cons x w ih =>
    have hw : NoAssignFirst w := fun y hy => h y (List.mem_cons_of_mem _ (List.mem_of_mem_head? hy))
    rw [assignsFollowNames_cons hw]
    exact ih fun y hy => h y (List.mem_cons_of_mem _ hy)

theorem ExpOf.noAssignFirst {ℓ : Nat} {w : List Lexeme} {e : Expr} (h : ExpOf parens ℓ w e) :
    NoAssignFirst w ∧ w ≠ [] := by
  obtain ⟨x, w', rfl, hx⟩ := h.head
  refine ⟨?_, List.cons_ne_nil _ _⟩
  rintro _ ⟨⟩ hk
  rw [hk] at hx
  cases hx

theorem LocOf.no_assign {w : List Lexeme} {l : Loc} : LocOf w l → ∀ x ∈ w, x.1 ≠ .assign
  | .var => by simp
  | .field h => by
    intro x hx
    simp only [List.mem_append, List.mem_cons, List.not_mem_nil, or_false] at hx
    rcases hx with hx | rfl | rfl
    · exact h.no_assign x hx
    · simp
    · simp

theorem LocOf.last {w : List Lexeme} {l : Loc} : LocOf w l → ∃ w' n, w = w' ++ [(.ident, n)]
  | .var => ⟨[], _, rfl⟩
  | .field (w := w) (x := x) (n := n) _ => ⟨w ++ [(.dot, x)], n, by simp⟩

/-- A location, then `=` and an expression: the `=` follows the location's last name. -/
theorem assignsFollowNames_assign {w₁ w₂ : List Lexeme} {l : Loc} {x : String} (h : LocOf w₁ l)
    (h₂ : NoAssignFirst w₂) : assignsFollowNames (w₁ ++ (.assign, x) :: w₂) = assignsFollowNames w₂ := by
  obtain ⟨w', n, rfl⟩ := h.last
  have hw' : assignsFollowNames w' = true :=
    assignsFollowNames_of_no_assign fun y hy => h.no_assign y (by simp [hy])
  simp [assignsFollowNames_append, assignsFollowNames_cons h₂, hw']

mutual

theorem ExpOf.assignsFollowNames {ℓ : Nat} {w : List Lexeme} {e : Expr} :
    ExpOf false ℓ w e → assignsFollowNames w = true
  | .term h => h.assignsFollowNames
  | .lift h _ => h.assignsFollowNames
  | .unary h => by rw [assignsFollowNames_cons h.noAssignFirst.1]; exact h.assignsFollowNames
  | .binary _ h h' | .compare _ h h' => by
    rw [assignsFollowNames_append (by simp), assignsFollowNames_cons h'.noAssignFirst.1]
    simp [h.assignsFollowNames, h'.assignsFollowNames]
  | .assign (.loc h) h' => by
    rw [assignsFollowNames_assign h h'.noAssignFirst.1]
    exact h'.assignsFollowNames
  | .assign (.paren hp _) _ => absurd hp Bool.false_ne_true

theorem TermOf.assignsFollowNames {w : List Lexeme} {e : Expr} :
    TermOf false w e → assignsFollowNames w = true
  | .intLit | .strLit | .trueLit | .falseLit => rfl
  | .loc h => assignsFollowNames_of_no_assign h.no_assign
  | .paren h => by
    have ⟨hf, hne⟩ := h.noAssignFirst
    rw [List.cons_append, assignsFollowNames_cons (by simp [hf, hne]), assignsFollowNames_append (by simp)]
    simp [h.assignsFollowNames]
  | .call h => by
    simp only [List.cons_append]
    rw [assignsFollowNames_cons (by simp), assignsFollowNames_cons (by simp [h.noAssignFirst]),
      assignsFollowNames_append (by simp)]
    simp [h.assignsFollowNames]

theorem ArgsOf.noAssignFirst {w : List Lexeme} {es : List Expr} : ArgsOf false w es → NoAssignFirst w
  | .none => noAssignFirst_nil
  | .some h _ => by simp [h.noAssignFirst]

theorem ArgsOf.assignsFollowNames {w : List Lexeme} {es : List Expr} :
    ArgsOf false w es → assignsFollowNames w = true
  | .none => rfl
  | .some h h' => by
    rw [assignsFollowNames_append h'.noAssignFirst]
    simp [h.assignsFollowNames, h'.assignsFollowNames]

theorem MoreArgsOf.noAssignFirst {w : List Lexeme} {es : List Expr} :
    MoreArgsOf false w es → NoAssignFirst w
  | .nil => noAssignFirst_nil
  | .comma _ _ => by simp

theorem MoreArgsOf.assignsFollowNames {w : List Lexeme} {es : List Expr} :
    MoreArgsOf false w es → assignsFollowNames w = true
  | .nil => rfl
  | .comma h h' => by
    rw [List.cons_append, assignsFollowNames_cons (by simp [h.noAssignFirst]),
      assignsFollowNames_append h'.noAssignFirst]
    simp [h.assignsFollowNames, h'.assignsFollowNames]

end

theorem noAssignFirst_of_no_assign {w : List Lexeme} (h : ∀ x ∈ w, x.1 ≠ .assign) : NoAssignFirst w :=
  fun x hx => h x (List.mem_of_mem_head? hx)

theorem VarDeclOf.no_assign {w : List Lexeme} {d : VarDecl} : VarDeclOf w d → ∀ x ∈ w, x.1 ≠ .assign
  | .base h => by
    intro x hx
    simp only [List.mem_cons, List.not_mem_nil, or_false] at hx
    rcases hx with rfl | rfl | rfl
    · rcases h.kind with hk | hk | hk <;> simp [hk]
    · simp
    · simp
  | .struct => by simp

theorem VarDeclOf.ne_nil {w : List Lexeme} {d : VarDecl} : VarDeclOf w d → w ≠ []
  | .base _ | .struct => by simp

/-- A declaration records size `0` when its word starts with `struct`, and `-1`
when it starts with a base type. -/
theorem VarDeclOf.size_eq {w : List Lexeme} {d : VarDecl} :
    VarDeclOf w d → d.size = if w.head?.map Prod.fst = some .kwStruct then 0 else -1
  | .base h => by cases h <;> simp [VarDecl.size]
  | .struct => by simp [VarDecl.size]

theorem VarDeclsOf.no_assign {w : List Lexeme} {ds : List VarDecl} :
    VarDeclsOf w ds → ∀ x ∈ w, x.1 ≠ .assign
  | .nil => by simp
  | .cons h h' => by
    intro x hx
    rcases List.mem_append.1 hx with hx | hx
    · exact h.no_assign x hx
    · exact h'.no_assign x hx

theorem ParamOf.no_assign {w : List Lexeme} {p : Param} : ParamOf w p → ∀ x ∈ w, x.1 ≠ .assign
  | .mk h => by
    intro x hx
    simp only [List.mem_cons, List.not_mem_nil, or_false] at hx
    rcases hx with rfl | rfl
    · rcases h.kind with hk | hk | hk <;> simp [hk]
    · simp

theorem MoreParamsOf.no_assign {w : List Lexeme} {ps : List Param} :
    MoreParamsOf w ps → ∀ x ∈ w, x.1 ≠ .assign
  | .nil => by simp
  | .comma h h' => by
    intro x hx
    simp only [List.cons_append, List.mem_cons, List.mem_append] at hx
    rcases hx with rfl | hx | hx
    · simp
    · exact h.no_assign x hx
    · exact h'.no_assign x hx

theorem ParamsOf.no_assign {w : List Lexeme} {ps : List Param} : ParamsOf w ps → ∀ x ∈ w, x.1 ≠ .assign
  | .none => by simp
  | .some h h' => by
    intro x hx
    rcases List.mem_append.1 hx with hx | hx
    · exact h.no_assign x hx
    · exact h'.no_assign x hx

theorem LocOf.noAssignFirst {w : List Lexeme} {l : Loc} (h : LocOf w l) : NoAssignFirst w :=
  noAssignFirst_of_no_assign h.no_assign

theorem StmtsOf.noAssignFirst {w : List Lexeme} {ss : List Stmt} (h : StmtsOf parens w ss) :
    NoAssignFirst w := by
  intro x hx hk
  have := h.head x hx
  rw [hk] at this
  cases this

theorem BlockOf.noAssignFirst {w : List Lexeme} {ds : List VarDecl} {ss : List Stmt} :
    BlockOf parens w ds ss → NoAssignFirst w
  | .mk _ _ => by simp

mutual

theorem StmtOf.assignsFollowNames {w : List Lexeme} {st : Stmt} :
    StmtOf false w st → assignsFollowNames w = true
  | .assign h h' => by
    simp only [List.append_assoc, List.cons_append]
    rw [assignsFollowNames_assign h (by simp [h'.noAssignFirst.1]), assignsFollowNames_append (by simp)]
    simp [h'.assignsFollowNames]
  | .increment h | .decrement h => by
    rw [assignsFollowNames_append (by simp)]
    simp [assignsFollowNames_of_no_assign h.no_assign]
  | .read h => by
    simp only [List.cons_append]
    rw [assignsFollowNames_cons (by simp), assignsFollowNames_cons (by simp [h.noAssignFirst]),
      assignsFollowNames_append (by simp)]
    simp [assignsFollowNames_of_no_assign h.no_assign]
  | .write h => by
    simp only [List.cons_append]
    rw [assignsFollowNames_cons (by simp), assignsFollowNames_cons (by simp [h.noAssignFirst.1]),
      assignsFollowNames_append (by simp)]
    simp [h.assignsFollowNames]
  | .ifThen h b | .whileLoop h b | .repeatLoop h b => by
    simp only [List.cons_append]
    rw [assignsFollowNames_cons (by simp), assignsFollowNames_cons (by simp [h.noAssignFirst.1]),
      assignsFollowNames_append (by simp), assignsFollowNames_cons b.noAssignFirst]
    simp [h.assignsFollowNames, b.assignsFollowNames]
  | .ifThenElse h b b' => by
    simp only [List.cons_append, List.append_assoc]
    rw [assignsFollowNames_cons (by simp), assignsFollowNames_cons (by simp [h.noAssignFirst.1]),
      assignsFollowNames_append (by simp), assignsFollowNames_cons (by simp [b.noAssignFirst]),
      assignsFollowNames_append (by simp), assignsFollowNames_cons b'.noAssignFirst]
    simp [h.assignsFollowNames, b.assignsFollowNames, b'.assignsFollowNames]
  | .call h => by
    simp only [List.cons_append]
    rw [assignsFollowNames_cons (by simp), assignsFollowNames_cons (by simp [h.noAssignFirst]),
      assignsFollowNames_append (by simp)]
    simp [h.assignsFollowNames]
  | .retNone => rfl
  | .retSome h => by
    simp only [List.cons_append]
    rw [assignsFollowNames_cons (by simp [h.noAssignFirst.1]), assignsFollowNames_append (by simp)]
    simp [h.assignsFollowNames]

theorem StmtsOf.assignsFollowNames {w : List Lexeme} {ss : List Stmt} :
    StmtsOf false w ss → assignsFollowNames w = true
  | .nil => rfl
  | .cons h h' => by
    rw [assignsFollowNames_append h'.noAssignFirst]
    simp [h.assignsFollowNames, h'.assignsFollowNames]

theorem BlockOf.assignsFollowNames {w : List Lexeme} {ds : List VarDecl} {ss : List Stmt} :
    BlockOf false w ds ss → assignsFollowNames w = true
  | .mk h h' => by
    simp only [List.cons_append, List.append_assoc]
    rw [assignsFollowNames_cons (by simp [noAssignFirst_of_no_assign h.no_assign, h'.noAssignFirst]),
      assignsFollowNames_append (by simp [h'.noAssignFirst]), assignsFollowNames_append (by simp)]
    simp [assignsFollowNames_of_no_assign h.no_assign, h'.assignsFollowNames]

end

theorem DeclOf.noAssignFirst {w : List Lexeme} {d : Decl} : DeclOf parens w d → NoAssignFirst w ∧ w ≠ []
  | .var h => ⟨noAssignFirst_of_no_assign h.no_assign, by cases h <;> simp⟩
  | .fn ha _ _ => by rcases ha.kind with hk | hk | hk <;> simp [hk]
  | .struct _ _ => by simp

theorem DeclOf.assignsFollowNames {w : List Lexeme} {d : Decl} :
    DeclOf false w d → assignsFollowNames w = true
  | .var h => assignsFollowNames_of_no_assign h.no_assign
  | .fn _ hp hb => by
    simp only [List.cons_append]
    rw [assignsFollowNames_cons (by simp), assignsFollowNames_cons (by simp),
      assignsFollowNames_cons (by simp [noAssignFirst_of_no_assign hp.no_assign]),
      assignsFollowNames_append (by simp), assignsFollowNames_cons hb.noAssignFirst]
    simp [assignsFollowNames_of_no_assign hp.no_assign, hb.assignsFollowNames]
  | .struct h h' => by
    simp only [List.cons_append, List.append_assoc]
    rw [assignsFollowNames_cons (by simp), assignsFollowNames_cons (by simp),
      assignsFollowNames_cons (by simp [noAssignFirst_of_no_assign h.no_assign, h.ne_nil]),
      assignsFollowNames_append (by simp [noAssignFirst_of_no_assign h'.no_assign]),
      assignsFollowNames_append (by simp)]
    simp [assignsFollowNames_of_no_assign h.no_assign, assignsFollowNames_of_no_assign h'.no_assign]

theorem DeclsOf.noAssignFirst {w : List Lexeme} {ds : List Decl} :
    DeclsOf parens w ds → NoAssignFirst w
  | .nil => noAssignFirst_nil
  | .cons h _ => by simp [h.noAssignFirst.1, h.noAssignFirst.2]

theorem DeclsOf.assignsFollowNames {w : List Lexeme} {ds : List Decl} :
    DeclsOf false w ds → assignsFollowNames w = true
  | .nil => rfl
  | .cons h h' => by
    rw [assignsFollowNames_append h'.noAssignFirst]
    simp [h.assignsFollowNames, h'.assignsFollowNames]

/-- **Every `=` of a program without targets in parentheses follows a name.** -/
theorem ProgramOf.assignsFollowNames {w : List Lexeme} {p : Program} :
    ProgramOf false w p → assignsFollowNames w = true
  | .mk h => h.assignsFollowNames

end Grammar

end EggFront
