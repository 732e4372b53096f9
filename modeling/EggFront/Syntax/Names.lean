import EggFront.Syntax

/-!
# The names of a program

`Program.names` lists every name written in a program, in source order:
declared names, struct type names, uses, callees and field names. Each
occurrence is one entry, with its span and, after resolution, its symbol.
-/

namespace EggFront

def TypeExpr.names : TypeExpr → List Ident
  | .struct n _ => [n]
  | _ => []

def Loc.names : Loc → List Ident
  | .var i => [i]
  | .field b n .. => b.names ++ [n]

mutual

def Expr.names : Expr → List Ident
  | .int .. | .str .. | .bool .. => []
  | .loc l => l.names
  | .assign t v _ => t.names ++ v.names
  | .call c args _ => c :: Expr.namesOf args
  | .unary _ e _ => e.names
  | .binary l _ r _ => l.names ++ r.names

/-- The names of a list of expressions, in order. -/
def Expr.namesOf : List Expr → List Ident
  | [] => []
  | e :: es => e.names ++ Expr.namesOf es

end

def VarDecl.names (d : VarDecl) : List Ident := d.type.names ++ [d.name]

def Param.names (p : Param) : List Ident := p.type.names ++ [p.name]

mutual

def Stmt.names : Stmt → List Ident
  | .assign t v _ _ => t.names ++ v.names
  | .increment t _ | .decrement t _ | .read t _ => t.names
  | .write v _ => v.names
  | .ifThen c ds ss _ | .whileLoop c ds ss _ | .repeatLoop c ds ss _ =>
    c.names ++ ds.flatMap VarDecl.names ++ Stmt.namesOf ss
  | .ifThenElse c ds ss eds ess _ =>
    c.names ++ ds.flatMap VarDecl.names ++ Stmt.namesOf ss ++ eds.flatMap VarDecl.names ++
      Stmt.namesOf ess
  | .call c args _ _ => c :: Expr.namesOf args
  | .ret (some v) _ => v.names
  | .ret none _ => []

/-- The names of a list of statements, in order. -/
def Stmt.namesOf : List Stmt → List Ident
  | [] => []
  | s :: ss => s.names ++ Stmt.namesOf ss

end

def FnDecl.names (f : FnDecl) : List Ident :=
  f.result.names ++ [f.name] ++ f.params.flatMap Param.names ++ f.decls.flatMap VarDecl.names ++
    Stmt.namesOf f.body

def StructDecl.names (d : StructDecl) : List Ident :=
  d.name :: d.fields.flatMap VarDecl.names

def Decl.names : Decl → List Ident
  | .var d => d.names
  | .fn f => f.names
  | .struct d => d.names

/-- Every name written in the program, in source order. -/
def Program.names (p : Program) : List Ident := p.decls.flatMap Decl.names

end EggFront
