import EggFront.Syntax

/-!
# Trees up to spans

Two programs that differ only in where their nodes stand in a source text have
the same `erase`: every span is replaced by `Span.blank`, and all else (node
kinds, names, symbols, operators, literal values, list lengths and orders) is
kept. "Equal when spans are ignored" is equality of `erase`.
-/

namespace EggFront

/-- The span of an erased node. -/
def Span.blank : Span := ⟨"", 0, 0, 0, 0⟩

def Ident.erase (i : Ident) : Ident := { i with span := .blank }

def TypeExpr.erase : TypeExpr → TypeExpr
  | .int _ => .int .blank
  | .bool _ => .bool .blank
  | .void _ => .void .blank
  | .struct n _ => .struct n.erase .blank

def Loc.erase : Loc → Loc
  | .var i => .var i.erase
  | .field b n _ failed record => .field b.erase n.erase .blank failed record

mutual

def Expr.erase : Expr → Expr
  | .int v _ => .int v .blank
  | .str t _ => .str t .blank
  | .bool b _ => .bool b .blank
  | .loc l => .loc l.erase
  | .assign t v _ => .assign t.erase v.erase .blank
  | .call c args _ => .call c.erase (Expr.eraseAll args) .blank
  | .unary op e _ => .unary op e.erase .blank
  | .binary l op r _ => .binary l.erase op r.erase .blank

/-- Erases every expression of a list. -/
def Expr.eraseAll : List Expr → List Expr
  | [] => []
  | e :: es => e.erase :: Expr.eraseAll es

end

@[simp] theorem Expr.eraseAll_eq_map (es : List Expr) : Expr.eraseAll es = es.map Expr.erase := by
  induction es with
  | nil => rfl
  | cons e es ih => simp [Expr.eraseAll, ih]

def VarDecl.erase (d : VarDecl) : VarDecl := ⟨d.type.erase, d.name.erase, .blank⟩

def Param.erase (p : Param) : Param := ⟨p.type.erase, p.name.erase, .blank⟩

mutual

def Stmt.erase : Stmt → Stmt
  | .assign t v _ _ => .assign t.erase v.erase .blank .blank
  | .increment t _ => .increment t.erase .blank
  | .decrement t _ => .decrement t.erase .blank
  | .read t _ => .read t.erase .blank
  | .write v _ => .write v.erase .blank
  | .ifThen c ds ss _ => .ifThen c.erase (ds.map VarDecl.erase) (Stmt.eraseAll ss) .blank
  | .ifThenElse c ds ss eds ess _ =>
    .ifThenElse c.erase (ds.map VarDecl.erase) (Stmt.eraseAll ss) (eds.map VarDecl.erase)
      (Stmt.eraseAll ess) .blank
  | .whileLoop c ds ss _ => .whileLoop c.erase (ds.map VarDecl.erase) (Stmt.eraseAll ss) .blank
  | .repeatLoop c ds ss _ => .repeatLoop c.erase (ds.map VarDecl.erase) (Stmt.eraseAll ss) .blank
  | .call c args _ _ => .call c.erase (args.map Expr.erase) .blank .blank
  | .ret v _ => .ret (v.map Expr.erase) .blank

/-- Erases every statement of a list. -/
def Stmt.eraseAll : List Stmt → List Stmt
  | [] => []
  | s :: ss => s.erase :: Stmt.eraseAll ss

end

@[simp] theorem Stmt.eraseAll_eq_map (ss : List Stmt) : Stmt.eraseAll ss = ss.map Stmt.erase := by
  induction ss with
  | nil => rfl
  | cons s ss ih => simp [Stmt.eraseAll, ih]

def FnDecl.erase (f : FnDecl) : FnDecl :=
  ⟨f.result.erase, f.name.erase, f.params.map Param.erase, f.decls.map VarDecl.erase,
    f.body.map Stmt.erase, .blank, .blank⟩

def StructDecl.erase (d : StructDecl) : StructDecl :=
  ⟨d.name.erase, d.fields.map VarDecl.erase, .blank⟩

def Decl.erase : Decl → Decl
  | .var d => .var d.erase
  | .fn f => .fn f.erase
  | .struct d => .struct d.erase

def Program.erase (p : Program) : Program := ⟨p.decls.map Decl.erase, .blank⟩

end EggFront
