import EggFront.Syntax
import EggFront.Binding.Scope

/-!
# Symbols

What a declared name stands for. A variable has a base type; a function has a
result type and, once they are recorded, the types of its parameters; a struct
type owns the scope of its fields; a variable of struct type names its struct and
the struct's symbol.

Each symbol has a kind, a type name and a text, which reports and hovers show:
a variable's type, `int, bool -> void` for a function (`void` when it has no
parameters), `struct` for a struct type, and the struct's name for a struct
variable.
-/

namespace EggFront

/-- What a declared name stands for. -/
inductive Symbol where
  | var (type : String)
  /-- `params` is `none` until the parameter types are recorded. -/
  | function (result : String) (params : Option (List String))
  | structDef (fields : Scopes SymbolId)
  | structVar (typeName : String) (definition : SymbolId)
deriving Inhabited

namespace Symbol

/-- The kind of a symbol as reports name it. -/
def kindName : Symbol → String
  | var _ => "VARIABLE"
  | function .. => "FUNCTION"
  | structDef _ => "STRUCT_DEFINITION"
  | structVar .. => "STRUCT_INSTANCE"

def typeName : Symbol → String
  | var t => t
  | function .. => "function"
  | structDef _ => "struct"
  | structVar t _ => t

/-- `int, bool -> void`: the parameter types, or `void` when they read as
nothing, then the result. -/
def signature (result : String) (params : List String) : String :=
  let shown := ", ".intercalate params
  (if shown.isEmpty then "void" else shown) ++ " -> " ++ result

/-- The text of a symbol, as hovers and annotated programs show it. -/
def text : Symbol → String
  | var t => t
  | function r ps => signature r (ps.getD [])
  | structDef _ => "struct"
  | structVar t _ => t

/-- What a function symbol raises when its parameter types are recorded a second time. -/
def paramsRecordedText : String := "function parameter types were already recorded"

/-- What a struct variable raises when its type is bound to no struct type. -/
def unresolvedStructText (typeName : String) : String :=
  "struct type '" ++ typeName ++ "' of an instance is unresolved"

end Symbol

end EggFront
