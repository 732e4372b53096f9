import EggFront.Diagnostic
import EggFront.Binding.Symbol

/-!
# Name resolution

`Program.resolve` binds every name of a program to the symbol of its innermost
visible declaration, and reports what cannot be bound. It walks the program
once, in source order, with a stack of scopes: a function's parameters and
locals share one scope, each branch and loop body has its own, and a struct's
fields are declared in a scope of their own that only field accesses read.

## Rules

* A declaration is refused, and makes no symbol, when its name is already
  declared in the same scope (`E301`), when a variable or parameter is `void`
  (`E303`), or when its struct type does not name a struct (`E304`); a struct type
  is looked up in the scopes enclosing the declaration, so a struct cannot hold
  itself. All three checks run, in that order of the codes `E303, E304, E301`.
* A function is declared before its parameters and body, so it can call itself.
* A use of a name with no visible declaration is `E302`.
* In `base.field`, `base` is resolved first. A `base` that failed makes the
  access fail silently; a `base` that is not a struct variable is `E305` (at the
  base name, or at the last field of a chain); a field the struct does not have
  is `E306`. A field of struct type records its struct, so the chain can go on.

Resolution keeps going after every diagnostic. The scope stack can refuse an
operation (`ScopeError`); resolution never asks it to, and such a refusal would
end resolution with a `Fault`. So would binding a name, or giving a field access
its struct type, a second time, and recording a function's parameter types twice:
these annotations are written once, and a program read by the parser has none.
-/

namespace EggFront

/-- A name resolution problem. -/
inductive NameIssue where
  | multiplyDeclared
  | undeclared
  | voidVariable
  | notAStructType
  | notAStruct
  | noSuchField
deriving DecidableEq, Repr

namespace NameIssue

def message : NameIssue → String
  | multiplyDeclared => "multiply declared identifier"
  | undeclared => "undeclared identifier"
  | voidVariable => "non-function declared void"
  | notAStructType => "invalid name of struct type"
  | notAStruct => "dot-access of non-struct type"
  | noSuchField => "invalid struct field name"

def code : NameIssue → String
  | multiplyDeclared => "E301"
  | undeclared => "E302"
  | voidVariable => "E303"
  | notAStructType => "E304"
  | notAStruct => "E305"
  | noSuchField => "E306"

def toDiagnostic (i : NameIssue) (span : Span) : Diagnostic :=
  Diagnostic.atSpan .error i.code i.message span

end NameIssue

/-- A broken invariant of resolution itself, never a property of the program. -/
inductive Fault where
  | scope (e : ScopeError)
  /-- A struct variable whose struct is not a struct type in the store. -/
  | unresolvedStruct (typeName : String)
  /-- A name bound a second time. -/
  | rebound (name : String) (span : Span)
  /-- A field access given the struct type of its field a second time. -/
  | accessRebound (span : Span)
  /-- A function's parameter types recorded a second time. -/
  | paramsRecorded
deriving Repr

def Fault.message : Fault → String
  | .scope e => e.message
  | .unresolvedStruct t => Symbol.unresolvedStructText t
  | .rebound n s => "identifier '" ++ n ++ "' at " ++ s.location ++ " is already bound"
  | .accessRebound s => "field access at " ++ s.location ++ " is already bound"
  | .paramsRecorded => Symbol.paramsRecordedText

/-- The class of the exception a fault raises: the table's own, or `InternalError`. -/
def Fault.className : Fault → String
  | .scope e => e.className
  | .unresolvedStruct _ | .rebound .. | .accessRebound _ | .paramsRecorded => "InternalError"

/-- What resolution has built so far: the symbols, by id, and the diagnostics. -/
structure Resolution where
  symbols : Array Symbol := #[]
  diagnostics : Array Diagnostic := #[]
deriving Inhabited

/-- Resolution steps: they read and extend the store, and may fault. -/
abbrev Resolve := ExceptT Fault (StateM Resolution)

namespace Resolve

def report (i : NameIssue) (span : Span) : Resolve Unit :=
  modify fun r => { r with diagnostics := r.diagnostics.push (i.toDiagnostic span) }

/-- Stores a new symbol and answers its id. -/
def addSymbol (s : Symbol) : Resolve SymbolId := do
  let r ← get
  set { r with symbols := r.symbols.push s }
  return ⟨r.symbols.size⟩

def symbol? (id : SymbolId) : Resolve (Option Symbol) :=
  return (← get).symbols[id.index]?

/-- Runs a scope operation; a refusal is a fault. -/
def liftScope {α : Type} (x : Except ScopeError α) : Resolve α :=
  match x with
  | .ok a => pure a
  | .error e => throw (.scope e)

/-- The fields of the struct type with id `id`. -/
def fieldsOf (id : SymbolId) (typeName : String) : Resolve (Scopes SymbolId) := do
  match ← symbol? id with
  | some (.structDef fields) => pure fields
  | _ => throw (.unresolvedStruct typeName)

/-- Binds a name to a symbol; a name that is bound already is a fault. -/
def bindIdent (i : Ident) (id : SymbolId) : Resolve Ident :=
  match i.sym with
  | none => pure { i with sym := some id }
  | some _ => throw (.rebound i.name i.span)

/-- Records the parameter types of the function with id `id`, made without them;
recording them again is a fault. Resolution calls it only on the function it has
just made. -/
def recordParams (id : SymbolId) (types : List String) : Resolve Unit := do
  match ← symbol? id with
  | some (.function r none) =>
    modify fun st => { st with symbols := st.symbols.setIfInBounds id.index (.function r (some types)) }
  | some (.function _ (some _)) => throw .paramsRecorded
  | _ => pure ()

/-- The struct type of a symbol that is a struct variable. -/
def recordOf (id : SymbolId) : Resolve (Option SymbolId) := do
  match ← symbol? id with
  | some (.structVar t d) => do
    let _ ← fieldsOf d t
    return some d
  | _ => return none

end Resolve

open Resolve

/-- Binds a use of a name to its innermost visible declaration. -/
def resolveUse (scopes : Scopes SymbolId) (i : Ident) : Resolve Ident := do
  match ← liftScope (scopes.lookup i.name) with
  | some id => bindIdent i id
  | none => report .undeclared i.span; return i

/-- The fields that `base.f` looks `f` up in, once `base` is resolved, or `none`
when the access fails. -/
def fieldScope (base : Loc) : Resolve (Option (Scopes SymbolId)) := do
  match base with
  | .var i =>
    match i.sym with
    | none => return none
    | some id =>
      match ← symbol? id with
      | some (.structVar t d) => return some (← fieldsOf d t)
      | _ => report .notAStruct i.span; return none
  | .field _ n _ failed record =>
    if failed then return none
    match record with
    | none => report .notAStruct n.span; return none
    | some d => return some (← fieldsOf d n.name)

/-- Resolves a location: its name, or its chain of fields. A failed access is
marked failed; a resolved one keeps its mark, and records the struct type of a
field of struct type. -/
def resolveLoc (scopes : Scopes SymbolId) : Loc → Resolve Loc
  | .var i => return .var (← resolveUse scopes i)
  | .field base n span failed record => do
    let base ← resolveLoc scopes base
    match ← fieldScope base with
    | none => return .field base n span true record
    | some fields =>
      match ← liftScope (fields.lookup n.name) with
      | none =>
        report .noSuchField n.span
        return .field base n span true record
      | some id =>
        let n ← bindIdent n id
        match ← recordOf id with
        | none => return .field base n span failed record
        | some d =>
          if record.isSome then throw (.accessRebound span)
          return .field base n span failed (some d)

mutual

def resolveExpr (scopes : Scopes SymbolId) : Expr → Resolve Expr
  | .loc l => return .loc (← resolveLoc scopes l)
  | .assign t v s => do
    let t ← resolveLoc scopes t
    return .assign t (← resolveExpr scopes v) s
  | .call c args s => do
    let c ← resolveUse scopes c
    return .call c (← resolveExprs scopes args) s
  | .unary op e s => return .unary op (← resolveExpr scopes e) s
  | .binary l op r s => do
    let l ← resolveExpr scopes l
    return .binary l op (← resolveExpr scopes r) s
  | e => pure e

def resolveExprs (scopes : Scopes SymbolId) : List Expr → Resolve (List Expr)
  | [] => pure []
  | e :: es => do
    let e ← resolveExpr scopes e
    return e :: (← resolveExprs scopes es)

end

/-- Declares a variable in `scopes`, looking its struct type up in `typeScopes`. -/
def declareVar (typeScopes scopes : Scopes SymbolId) (d : VarDecl) :
    Resolve (VarDecl × Scopes SymbolId) := do
  let isVoid := match d.type with | .void _ => true | _ => false
  if isVoid then report .voidVariable d.name.span
  let (type, record, badType) ← match d.type with
    | .struct n s => do
      match ← liftScope (typeScopes.lookup n.name) with
      | some id =>
        match ← symbol? id with
        | some (.structDef _) => pure (TypeExpr.struct (← bindIdent n id) s, some id, false)
        | _ => report .notAStructType n.span; pure (d.type, none, true)
      | none => report .notAStructType n.span; pure (d.type, none, true)
    | t => pure (t, none, false)
  let taken := (← liftScope (scopes.lookupLocal d.name.name)).isSome
  if taken then report .multiplyDeclared d.name.span
  if isVoid || badType || taken then return ({ d with type }, scopes)
  let sym := match record with
    | some defn => Symbol.structVar type.name defn
    | none => Symbol.var type.name
  let id ← addSymbol sym
  let scopes ← liftScope (scopes.declare d.name.name id)
  return ({ d with type, name := ← bindIdent d.name id }, scopes)

/-- Declares variables one after another. -/
def declareVars (typeScopes? : Option (Scopes SymbolId)) :
    List VarDecl → Scopes SymbolId → Resolve (List VarDecl × Scopes SymbolId)
  | [], scopes => pure ([], scopes)
  | d :: ds, scopes => do
    let (d, scopes) ← declareVar (typeScopes?.getD scopes) scopes d
    let (ds, scopes) ← declareVars typeScopes? ds scopes
    return (d :: ds, scopes)

/-- Declares a parameter; answers its type name when it made a symbol. -/
def declareParam (scopes : Scopes SymbolId) (p : Param) :
    Resolve (Param × Option String × Scopes SymbolId) := do
  let isVoid := match p.type with | .void _ => true | _ => false
  if isVoid then report .voidVariable p.name.span
  let taken := (← liftScope (scopes.lookupLocal p.name.name)).isSome
  if taken then report .multiplyDeclared p.name.span
  if isVoid || taken then return (p, none, scopes)
  let id ← addSymbol (.var p.type.name)
  let scopes ← liftScope (scopes.declare p.name.name id)
  return ({ p with name := ← bindIdent p.name id }, some p.type.name, scopes)

def declareParams : List Param → Scopes SymbolId →
    Resolve (List Param × List String × Scopes SymbolId)
  | [], scopes => pure ([], [], scopes)
  | p :: ps, scopes => do
    let (p, type?, scopes) ← declareParam scopes p
    let (ps, types, scopes) ← declareParams ps scopes
    return (p :: ps, type?.toList ++ types, scopes)

mutual

def resolveStmt (scopes : Scopes SymbolId) : Stmt → Resolve Stmt
  | .assign t v as s => do
    let t ← resolveLoc scopes t
    return .assign t (← resolveExpr scopes v) as s
  | .increment t s => return .increment (← resolveLoc scopes t) s
  | .decrement t s => return .decrement (← resolveLoc scopes t) s
  | .read t s => return .read (← resolveLoc scopes t) s
  | .write v s => return .write (← resolveExpr scopes v) s
  | .ifThen c ds ss s => do
    let c ← resolveExpr scopes c
    let (ds, ss) ← resolveBlock scopes ds ss
    return .ifThen c ds ss s
  | .ifThenElse c ds ss eds ess s => do
    let c ← resolveExpr scopes c
    let (ds, ss) ← resolveBlock scopes ds ss
    let (eds, ess) ← resolveBlock scopes eds ess
    return .ifThenElse c ds ss eds ess s
  | .whileLoop c ds ss s => do
    let c ← resolveExpr scopes c
    let (ds, ss) ← resolveBlock scopes ds ss
    return .whileLoop c ds ss s
  | .repeatLoop c ds ss s => do
    let c ← resolveExpr scopes c
    let (ds, ss) ← resolveBlock scopes ds ss
    return .repeatLoop c ds ss s
  | .call c args cs s => do
    let c ← resolveUse scopes c
    return .call c (← resolveExprs scopes args) cs s
  | .ret (some v) s => return .ret (some (← resolveExpr scopes v)) s
  | .ret none s => pure (.ret none s)

def resolveStmts (scopes : Scopes SymbolId) : List Stmt → Resolve (List Stmt)
  | [] => pure []
  | s :: ss => do
    let s ← resolveStmt scopes s
    return s :: (← resolveStmts scopes ss)

/-- A block in a scope of its own: its declarations, then its statements. -/
def resolveBlock (scopes : Scopes SymbolId) (ds : List VarDecl) (ss : List Stmt) :
    Resolve (List VarDecl × List Stmt) := do
  let (ds, inner) ← declareVars none ds scopes.push
  let ss ← resolveStmts inner ss
  let _ ← liftScope inner.pop
  return (ds, ss)

end

/-- Declares a function, then resolves its parameters and body in a scope of their own. -/
def declareFn (scopes : Scopes SymbolId) (f : FnDecl) : Resolve (FnDecl × Scopes SymbolId) := do
  let (name, fnId, scopes) ← do
    if (← liftScope (scopes.lookupLocal f.name.name)).isSome then
      report .multiplyDeclared f.name.span
      pure (f.name, none, scopes)
    else
      let id ← addSymbol (.function f.result.name none)
      let scopes ← liftScope (scopes.declare f.name.name id)
      pure (← bindIdent f.name id, some id, scopes)
  let (params, types, inner) ← declareParams f.params scopes.push
  if let some id := fnId then recordParams id types
  let (decls, inner) ← declareVars none f.decls inner
  let body ← resolveStmts inner f.body
  let _ ← liftScope inner.pop
  return ({ f with name, params, decls, body }, scopes)

/-- Declares a struct type; its fields go into a scope of their own, and their
struct types are looked up in `scopes`. -/
def declareStruct (scopes : Scopes SymbolId) (d : StructDecl) :
    Resolve (StructDecl × Scopes SymbolId) := do
  let taken := (← liftScope (scopes.lookupLocal d.name.name)).isSome
  if taken then report .multiplyDeclared d.name.span
  let (fields, fieldScopes) ← declareVars (some scopes) d.fields Scopes.initial
  if taken then return ({ d with fields }, scopes)
  let id ← addSymbol (.structDef fieldScopes)
  let scopes ← liftScope (scopes.declare d.name.name id)
  return ({ d with name := ← bindIdent d.name id, fields }, scopes)

def declareDecl (scopes : Scopes SymbolId) : Decl → Resolve (Decl × Scopes SymbolId)
  | .var d => do let (d, s) ← declareVar scopes scopes d; return (.var d, s)
  | .fn f => do let (f, s) ← declareFn scopes f; return (.fn f, s)
  | .struct d => do let (d, s) ← declareStruct scopes d; return (.struct d, s)

def declareDecls : List Decl → Scopes SymbolId → Resolve (List Decl × Scopes SymbolId)
  | [], scopes => pure ([], scopes)
  | d :: ds, scopes => do
    let (d, scopes) ← declareDecl scopes d
    let (ds, scopes) ← declareDecls ds scopes
    return (d :: ds, scopes)

/-- A resolved program: its names bound, the symbols, the diagnostics, and the
scope stack left at the end. -/
structure Resolved where
  program : Program
  symbols : Array Symbol
  diagnostics : List Diagnostic
  scopes : Scopes SymbolId

/-- Resolves the names of a program, starting from one empty scope. -/
def Program.resolve (p : Program) : Except Fault Resolved :=
  match (declareDecls p.decls Scopes.initial).run.run {} with
  | (.ok (decls, scopes), r) => .ok ⟨{ p with decls }, r.symbols, r.diagnostics.toList, scopes⟩
  | (.error f, _) => .error f

/-- Whether resolution found an error. -/
def Resolved.hasErrors (r : Resolved) : Bool := r.diagnostics.any Diagnostic.isError

end EggFront
