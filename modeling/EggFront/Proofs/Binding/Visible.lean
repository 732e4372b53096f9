import EggFront.Binding.Resolve
import EggFront.Syntax.Names

/-!
# Lexical scoping

Which declaration a name stands for, said by the shape of the program alone. An
environment (`Env`) lists the declarations visible at a point of a program,
innermost scope first and each scope in the order of its declarations. A use of
a name stands for the innermost visible declaration of it (`Env.use`); the type
name of `struct T x` names a struct type when the innermost visible declaration
of `T` declares one (`Env.structType`).

The rules that build environments follow the program:

* the program is one scope, and each declaration is visible after it;
* a function's own name is visible in its body; its parameters and its locals
  share one scope inside the program's;
* the declarations of each block (`if`, `else`, `while`, `repeat`) are a scope
  inside the one the statement stands in, and the block's condition is read
  outside it;
* the fields of a struct are a scope of their own that no use sees; their
  struct types are read where the struct is declared;
* a declaration counts only when it is accepted (`VarDecl.Accepted`): its type is
  not `void`, its struct type names a struct type, and its scope does not declare
  its name yet. An accepted declaration's name is bound to a symbol, and the
  environment after it binds the name to that symbol.

`Program.Scoped` says that a resolved program follows these rules at every name:
each use is bound to what its environment says, each struct type name to its
struct type, and each declared name exactly when it is accepted.
`Program.uses` lists the uses, in source order, and `Program.strip` forgets what
resolution writes into a tree.
-/

namespace EggFront

/-! ## Environments -/

/-- A declaration visible by its name: the symbol its name is bound to, and whether
it declares a struct type. -/
structure Binding where
  name : String
  sym : SymbolId
  isStruct : Bool

/-- The declarations visible at a point of a program: innermost scope first, each
scope in the order of its declarations. -/
abbrev Env := List (List Binding)

namespace Env

/-- The innermost visible declaration of `x`. -/
def find? : Env → String → Option Binding
  | [], _ => none
  | f :: rest, x => (f.find? (·.name == x)).or (find? rest x)

/-- The symbol a use of `x` stands for: that of its innermost visible declaration. -/
def use (E : Env) (x : String) : Option SymbolId := (E.find? x).map (·.sym)

/-- The struct type `x` names: the innermost visible declaration of `x`, when it
declares a struct type. -/
def structType (E : Env) (x : String) : Option SymbolId :=
  match E.find? x with
  | some b => if b.isStruct then some b.sym else none
  | none => none

/-- Whether the innermost scope declares `x` already. -/
def declaresHere (E : Env) (x : String) : Bool := (E.headD []).any (·.name == x)

/-- `E` with a declaration added last to its innermost scope. -/
def add : Env → Binding → Env
  | [], b => [[b]]
  | f :: rest, b => (f ++ [b]) :: rest

/-- `E` after the declaration of the name `i`: the name counts when it is bound. -/
def declare (E : Env) (i : Ident) (isStruct : Bool) : Env :=
  match i.sym with
  | some id => E.add ⟨i.name, id, isStruct⟩
  | none => E

/-- `E` after declarations of variables named `is`, one after another. -/
def declareAll (E : Env) (is : List Ident) : Env := is.foldl (fun E i => E.declare i false) E

end Env

/-! ## The rules -/

/-- The use at the root of a location is bound to what `E` says. -/
def Loc.UsesIn (E : Env) : Loc → Prop
  | .var i => i.sym = E.use i.name
  | .field b .. => b.UsesIn E

mutual

/-- Every use in the expression, a location's root or a callee, is bound to what
`E` says. -/
def Expr.UsesIn (E : Env) : Expr → Prop
  | .int .. | .str .. | .bool .. => True
  | .loc l => l.UsesIn E
  | .assign t v _ => t.UsesIn E ∧ v.UsesIn E
  | .call c args _ => c.sym = E.use c.name ∧ Expr.AllUsesIn E args
  | .unary _ e _ => e.UsesIn E
  | .binary l _ r _ => l.UsesIn E ∧ r.UsesIn E

def Expr.AllUsesIn (E : Env) : List Expr → Prop
  | [] => True
  | e :: es => e.UsesIn E ∧ Expr.AllUsesIn E es

end

/-- The checks a variable declaration passes to be accepted, its struct type read
in `T` and its name in the innermost scope of `E`. -/
def VarDecl.Accepted (T E : Env) (d : VarDecl) : Prop :=
  (∀ s, d.type ≠ .void s) ∧ (∀ n s, d.type = .struct n s → (T.structType n.name).isSome) ∧
    E.declaresHere d.name.name = false

/-- A variable declaration follows the rules: its struct type name is bound to the
struct type it names in `T`, and its name is bound exactly when it is accepted. -/
def VarDecl.ScopedIn (T E : Env) (d : VarDecl) : Prop :=
  (∀ n s, d.type = .struct n s → n.sym = T.structType n.name) ∧ (d.name.sym.isSome ↔ d.Accepted T E)

/-- Variable declarations one after another, each in the environment the ones
before it left; their struct types are read in `T?`, or where they stand. -/
def VarDecl.AllScopedIn (T? : Option Env) : Env → List VarDecl → Prop
  | _, [] => True
  | E, d :: ds => d.ScopedIn (T?.getD E) E ∧ VarDecl.AllScopedIn T? (E.declare d.name false) ds

/-- A parameter's name is bound exactly when its type is not `void` and no
parameter before it has its name. -/
def Param.ScopedIn (E : Env) (p : Param) : Prop :=
  p.name.sym.isSome ↔ (∀ s, p.type ≠ .void s) ∧ E.declaresHere p.name.name = false

def Param.AllScopedIn : Env → List Param → Prop
  | _, [] => True
  | E, p :: ps => p.ScopedIn E ∧ Param.AllScopedIn (E.declare p.name false) ps

mutual

/-- A statement follows the rules in the environment `E` it stands in; a block's
declarations are a scope inside `E`, seen by the block's statements. -/
def Stmt.ScopedIn (E : Env) : Stmt → Prop
  | .assign t v _ _ => t.UsesIn E ∧ v.UsesIn E
  | .increment t _ | .decrement t _ | .read t _ => t.UsesIn E
  | .write v _ => v.UsesIn E
  | .ifThen c ds ss _ | .whileLoop c ds ss _ | .repeatLoop c ds ss _ =>
    c.UsesIn E ∧ VarDecl.AllScopedIn none ([] :: E) ds ∧
      Stmt.AllScopedIn (Env.declareAll ([] :: E) (ds.map (·.name))) ss
  | .ifThenElse c ds ss eds ess _ =>
    c.UsesIn E ∧ VarDecl.AllScopedIn none ([] :: E) ds ∧
      Stmt.AllScopedIn (Env.declareAll ([] :: E) (ds.map (·.name))) ss ∧
      VarDecl.AllScopedIn none ([] :: E) eds ∧
      Stmt.AllScopedIn (Env.declareAll ([] :: E) (eds.map (·.name))) ess
  | .call c args _ _ => c.sym = E.use c.name ∧ Expr.AllUsesIn E args
  | .ret (some v) _ => v.UsesIn E
  | .ret none _ => True

def Stmt.AllScopedIn (E : Env) : List Stmt → Prop
  | [] => True
  | s :: ss => s.ScopedIn E ∧ Stmt.AllScopedIn E ss

end

/-- A function follows the rules: its name is bound exactly when the program does
not declare it yet; its parameters, then its locals, are declared in one scope
inside the program's, where its own name is visible, and its body sees them all. -/
def FnDecl.ScopedIn (E : Env) (f : FnDecl) : Prop :=
  (f.name.sym.isSome ↔ E.declaresHere f.name.name = false) ∧
    Param.AllScopedIn ([] :: E.declare f.name false) f.params ∧
    VarDecl.AllScopedIn none (Env.declareAll ([] :: E.declare f.name false) (f.params.map (·.name)))
      f.decls ∧
    Stmt.AllScopedIn (Env.declareAll ([] :: E.declare f.name false)
      (f.params.map (·.name) ++ f.decls.map (·.name))) f.body

/-- A struct follows the rules: its name is bound exactly when the program does not
declare it yet, and its fields are a scope of their own whose struct types are
read in `E`. -/
def StructDecl.ScopedIn (E : Env) (d : StructDecl) : Prop :=
  (d.name.sym.isSome ↔ E.declaresHere d.name.name = false) ∧ VarDecl.AllScopedIn (some E) [[]] d.fields

def Decl.ScopedIn (E : Env) : Decl → Prop
  | .var d => d.ScopedIn E E
  | .fn f => f.ScopedIn E
  | .struct d => d.ScopedIn E

/-- The environment after a top-level declaration. -/
def Decl.declare (E : Env) : Decl → Env
  | .var d => E.declare d.name false
  | .fn f => E.declare f.name false
  | .struct d => E.declare d.name true

def Decl.AllScopedIn : Env → List Decl → Prop
  | _, [] => True
  | E, d :: ds => d.ScopedIn E ∧ Decl.AllScopedIn (d.declare E) ds

/-- **A program follows lexical scoping**: its declarations one after another in
the program's scope, every name as the rules say. -/
def Program.Scoped (p : Program) : Prop := Decl.AllScopedIn [[]] p.decls

/-! ## Uses -/

def Loc.uses : Loc → List Ident
  | .var i => [i]
  | .field b .. => b.uses

mutual

/-- The uses of names in an expression, in source order: the roots of its
locations and its callees. -/
def Expr.uses : Expr → List Ident
  | .int .. | .str .. | .bool .. => []
  | .loc l => l.uses
  | .assign t v _ => t.uses ++ v.uses
  | .call c args _ => c :: Expr.usesOf args
  | .unary _ e _ => e.uses
  | .binary l _ r _ => l.uses ++ r.uses

def Expr.usesOf : List Expr → List Ident
  | [] => []
  | e :: es => e.uses ++ Expr.usesOf es

end

mutual

def Stmt.uses : Stmt → List Ident
  | .assign t v _ _ => t.uses ++ v.uses
  | .increment t _ | .decrement t _ | .read t _ => t.uses
  | .write v _ => v.uses
  | .ifThen c _ ss _ | .whileLoop c _ ss _ | .repeatLoop c _ ss _ => c.uses ++ Stmt.usesOf ss
  | .ifThenElse c _ ss _ ess _ => c.uses ++ Stmt.usesOf ss ++ Stmt.usesOf ess
  | .call c args _ _ => c :: Expr.usesOf args
  | .ret (some v) _ => v.uses
  | .ret none _ => []

def Stmt.usesOf : List Stmt → List Ident
  | [] => []
  | s :: ss => s.uses ++ Stmt.usesOf ss

end

/-- The uses of names in a declaration: those of a function's body. -/
def Decl.uses : Decl → List Ident
  | .fn f => Stmt.usesOf f.body
  | _ => []

/-- Every use of a name in the program, in source order. -/
def Program.uses (p : Program) : List Ident := p.decls.flatMap Decl.uses

/-- One report of an undeclared name for each name of the list left unbound, at its
span, in order. -/
def undeclaredAt (is : List Ident) : List Diagnostic :=
  (is.filter (·.sym.isNone)).map fun i => NameIssue.undeclared.toDiagnostic i.span

/-! ## What resolution writes -/

/-- The name without its symbol. -/
def Ident.strip (i : Ident) : Ident := { i with sym := none }

def TypeExpr.strip : TypeExpr → TypeExpr
  | .struct n s => .struct n.strip s
  | t => t

/-- The location without its symbols, with no access marked failed and no struct
type recorded. -/
def Loc.strip : Loc → Loc
  | .var i => .var i.strip
  | .field b n s _ _ => .field b.strip n.strip s false none

mutual

def Expr.strip : Expr → Expr
  | .loc l => .loc l.strip
  | .assign t v s => .assign t.strip v.strip s
  | .call c args s => .call c.strip (Expr.stripAll args) s
  | .unary op e s => .unary op e.strip s
  | .binary l op r s => .binary l.strip op r.strip s
  | e => e

def Expr.stripAll : List Expr → List Expr
  | [] => []
  | e :: es => e.strip :: Expr.stripAll es

end

def VarDecl.strip (d : VarDecl) : VarDecl := { d with type := d.type.strip, name := d.name.strip }

def Param.strip (p : Param) : Param := { p with name := p.name.strip }

mutual

def Stmt.strip : Stmt → Stmt
  | .assign t v as s => .assign t.strip v.strip as s
  | .increment t s => .increment t.strip s
  | .decrement t s => .decrement t.strip s
  | .read t s => .read t.strip s
  | .write v s => .write v.strip s
  | .ifThen c ds ss s => .ifThen c.strip (ds.map VarDecl.strip) (Stmt.stripAll ss) s
  | .ifThenElse c ds ss eds ess s =>
    .ifThenElse c.strip (ds.map VarDecl.strip) (Stmt.stripAll ss) (eds.map VarDecl.strip)
      (Stmt.stripAll ess) s
  | .whileLoop c ds ss s => .whileLoop c.strip (ds.map VarDecl.strip) (Stmt.stripAll ss) s
  | .repeatLoop c ds ss s => .repeatLoop c.strip (ds.map VarDecl.strip) (Stmt.stripAll ss) s
  | .call c args cs s => .call c.strip (Expr.stripAll args) cs s
  | .ret v s => .ret (v.map Expr.strip) s

def Stmt.stripAll : List Stmt → List Stmt
  | [] => []
  | s :: ss => s.strip :: Stmt.stripAll ss

end

def FnDecl.strip (f : FnDecl) : FnDecl :=
  { f with name := f.name.strip, params := f.params.map Param.strip, decls := f.decls.map VarDecl.strip,
           body := Stmt.stripAll f.body }

def StructDecl.strip (d : StructDecl) : StructDecl :=
  { d with name := d.name.strip, fields := d.fields.map VarDecl.strip }

def Decl.strip : Decl → Decl
  | .var d => .var d.strip
  | .fn f => .fn f.strip
  | .struct d => .struct d.strip

/-- The program as it was before resolution wrote into it. -/
def Program.strip (p : Program) : Program := { p with decls := p.decls.map Decl.strip }

end EggFront
