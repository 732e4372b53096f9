import EggFront.Source.Span

/-!
# The syntax tree of egg

A program is a list of top-level declarations: variables, functions and struct
types. A function body, and every branch or loop body, is a block: variable
declarations first, then statements. Expressions are built from literals,
locations (a name, or a chain of field accesses on it), calls, assignments and
unary and binary operators; parentheses leave no trace in the tree.

Every node keeps its span. Name resolution fills in two annotations: each name
gets the symbol it denotes (`Ident.sym`), and each field access records whether
resolving it failed and, for a field of struct type, the struct it holds.
-/

namespace EggFront

/-- A symbol, by its place in the store of a resolution. -/
structure SymbolId where
  index : Nat
deriving DecidableEq, Repr, Inhabited, Hashable

/-- A name as written, with the symbol it denotes once names are resolved. -/
structure Ident where
  name : String
  span : Span
  sym : Option SymbolId := none
deriving DecidableEq, Repr, Inhabited

/-- A type as written in a declaration. -/
inductive TypeExpr where
  | int (span : Span)
  | bool (span : Span)
  | void (span : Span)
  /-- `struct T`: the span runs from `struct` to the name `T`. -/
  | struct (name : Ident) (span : Span)
deriving DecidableEq, Repr, Inhabited

namespace TypeExpr

def span : TypeExpr → Span
  | int s | bool s | void s | struct _ s => s

/-- How the type is written: `int`, `bool`, `void` or `struct T`. -/
def text : TypeExpr → String
  | int _ => "int"
  | bool _ => "bool"
  | void _ => "void"
  | struct n _ => "struct " ++ n.name

/-- The name of the type as symbols report it: `int`, `bool`, `void` or the struct's name. -/
def name : TypeExpr → String
  | struct n _ => n.name
  | t => t.text

end TypeExpr

/-- A place that can be read and assigned: a name, or a field of a place. -/
inductive Loc where
  | var (name : Ident)
  /-- `base.name`. Resolution sets `failed` when the chain could not be
  resolved up to here, and `record` to the struct type of the field's value. -/
  | field (base : Loc) (name : Ident) (span : Span) (failed : Bool) (record : Option SymbolId)
deriving DecidableEq, Repr, Inhabited

def Loc.span : Loc → Span
  | .var n => n.span
  | .field _ _ s _ _ => s

/-- Unary operators. -/
inductive UnOp where
  | not
  | neg
deriving DecidableEq, Repr, Inhabited

def UnOp.symbol : UnOp → String
  | not => "!"
  | neg => "-"

/-- Binary operators. -/
inductive BinOp where
  | or | and
  | eq | ne | lt | gt | le | ge
  | add | sub | mul | div
deriving DecidableEq, Repr, Inhabited

namespace BinOp

def symbol : BinOp → String
  | or => "||" | and => "&&"
  | eq => "==" | ne => "!=" | lt => "<" | gt => ">" | le => "<=" | ge => ">="
  | add => "+" | sub => "-" | mul => "*" | div => "/"

/-- The six comparisons, which do not chain. -/
def isComparison : BinOp → Bool
  | eq | ne | lt | gt | le | ge => true
  | _ => false

end BinOp

/-- Expressions. -/
inductive Expr where
  | int (value : Nat) (span : Span)
  /-- A string literal, as written: quotes and escapes included. -/
  | str (text : String) (span : Span)
  | bool (value : Bool) (span : Span)
  | loc (target : Loc)
  | assign (target : Loc) (value : Expr) (span : Span)
  | call (callee : Ident) (args : List Expr) (span : Span)
  | unary (op : UnOp) (operand : Expr) (span : Span)
  | binary (lhs : Expr) (op : BinOp) (rhs : Expr) (span : Span)
deriving Repr, Inhabited

def Expr.span : Expr → Span
  | .int _ s | .str _ s | .bool _ s | .assign _ _ s | .call _ _ s | .unary _ _ s
  | .binary _ _ _ s => s
  | .loc l => l.span

/-- The place an expression denotes, if it is a bare location. -/
def Expr.asLoc? : Expr → Option Loc
  | .loc l => some l
  | _ => none

/-- A variable declaration `T x;`, also a struct field. -/
structure VarDecl where
  type : TypeExpr
  name : Ident
  span : Span
deriving DecidableEq, Repr, Inhabited

/-- The size a declaration records: `0` for a variable of a struct type, and the
marker `NOT_STRUCT`, `-1`, for any other. -/
def VarDecl.size (d : VarDecl) : Int :=
  match d.type with
  | .struct .. => 0
  | _ => -1

/-- A function parameter `T x`. -/
structure Param where
  type : TypeExpr
  name : Ident
  span : Span
deriving DecidableEq, Repr, Inhabited

/-- Statements. Bodies are blocks: declarations, then statements. -/
inductive Stmt where
  /-- `target = value;`; `assignSpan` covers the assignment without the `;`. -/
  | assign (target : Loc) (value : Expr) (assignSpan : Span) (span : Span)
  | increment (target : Loc) (span : Span)
  | decrement (target : Loc) (span : Span)
  | read (target : Loc) (span : Span)
  | write (value : Expr) (span : Span)
  | ifThen (cond : Expr) (decls : List VarDecl) (body : List Stmt) (span : Span)
  | ifThenElse (cond : Expr) (thenDecls : List VarDecl) (thenBody : List Stmt)
      (elseDecls : List VarDecl) (elseBody : List Stmt) (span : Span)
  | whileLoop (cond : Expr) (decls : List VarDecl) (body : List Stmt) (span : Span)
  | repeatLoop (cond : Expr) (decls : List VarDecl) (body : List Stmt) (span : Span)
  /-- `callee(args);`; `callSpan` covers the call without the `;`. -/
  | call (callee : Ident) (args : List Expr) (callSpan : Span) (span : Span)
  | ret (value : Option Expr) (span : Span)
deriving Repr, Inhabited

def Stmt.span : Stmt → Span
  | .assign _ _ _ s | .increment _ s | .decrement _ s | .read _ s | .write _ s
  | .ifThen _ _ _ s | .ifThenElse _ _ _ _ _ s | .whileLoop _ _ _ s | .repeatLoop _ _ _ s
  | .call _ _ _ s | .ret _ s => s

/-- A function: result type, name, parameters and body. -/
structure FnDecl where
  result : TypeExpr
  name : Ident
  params : List Param
  decls : List VarDecl
  body : List Stmt
  /-- From the opening to the closing brace of the body. -/
  bodySpan : Span
  span : Span
deriving Repr, Inhabited

/-- A struct type: its name and at least one field. -/
structure StructDecl where
  name : Ident
  fields : List VarDecl
  span : Span
deriving DecidableEq, Repr, Inhabited

/-- Top-level declarations. -/
inductive Decl where
  | var (d : VarDecl)
  | fn (d : FnDecl)
  | struct (d : StructDecl)
deriving Repr, Inhabited

/-- A whole egg program. Its span runs from line 1, column 1 to the end of the text. -/
structure Program where
  decls : List Decl
  span : Span
deriving Repr, Inhabited

end EggFront
