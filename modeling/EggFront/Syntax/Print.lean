import EggFront.Syntax
import EggFront.Text.Lines

/-!
# Printing programs

`Program.print` writes a program back as egg text, in one canonical layout:
one declaration or statement per line, bodies indented, `else` on a line of its
own, every nested assignment, unary and binary expression in parentheses, and
a blank line after each function and struct.

With a `label` for symbols, each use of a name, each callee and each struct type
name is followed by the text of its symbol in parentheses, as in `x(int)`;
declared names and field names are printed bare.

Indenting a body re-cuts its text into lines (`Text.lines`), so a line break
inside a string literal starts a new, indented line.
-/

namespace EggFront

/-- How a program is printed. -/
structure PrintStyle where
  /-- Spaces before each line of a body, per level. -/
  indent : Nat := 4
  /-- The text shown after a name bound to a symbol, if any. -/
  label : SymbolId → Option String := fun _ => none

namespace PrintStyle

variable (st : PrintStyle)

/-- A use of a name, labelled with its symbol's text when the style gives one. -/
def use (i : Ident) : String :=
  match i.sym.bind st.label with
  | some t => i.name ++ "(" ++ t ++ ")"
  | none => i.name

/-- Every line of `text`, indented one level; empty lines stay empty. -/
def indented (text : String) : String :=
  let pad := String.ofList (List.replicate st.indent ' ')
  "\n".intercalate ((Text.lines text).map fun l => if l.isEmpty then l else pad ++ l)

def typeText : TypeExpr → String
  | .struct n _ => "struct " ++ st.use n
  | t => t.text

def varDeclText (d : VarDecl) : String := st.typeText d.type ++ " " ++ d.name.name ++ ";"

def locText : Loc → String
  | .var i => st.use i
  | .field b n .. => locText b ++ "." ++ n.name

mutual

def exprText : Expr → String
  | .int v _ => toString v
  | .str t _ => t
  | .bool true _ => "true"
  | .bool false _ => "false"
  | .loc l => st.locText l
  | .assign t v _ => "(" ++ st.locText t ++ " = " ++ exprText v ++ ")"
  | .call c args _ => st.use c ++ "(" ++ ", ".intercalate (exprTexts args) ++ ")"
  | .unary op e _ => "(" ++ op.symbol ++ exprText e ++ ")"
  | .binary l op r _ => "(" ++ exprText l ++ " " ++ op.symbol ++ " " ++ exprText r ++ ")"

def exprTexts : List Expr → List String
  | [] => []
  | e :: es => exprText e :: exprTexts es

end

/-- A header line, the lines of a block after its declarations, indented, and `}`. -/
def headed (header : String) (ds : List VarDecl) (lines : List String) : String :=
  "\n".intercalate ([header] ++ ds.map (st.indented ∘ st.varDeclText) ++ lines ++ ["\x7d"])

mutual

def stmtText : Stmt → String
  | .assign t v _ _ => st.locText t ++ " = " ++ st.exprText v ++ ";"
  | .increment t _ => st.locText t ++ "++;"
  | .decrement t _ => st.locText t ++ "--;"
  | .read t _ => "cin >> " ++ st.locText t ++ ";"
  | .write v _ => "cout << " ++ st.exprText v ++ ";"
  | .ifThen c ds ss _ => st.headed ("if (" ++ st.exprText c ++ ") \x7b") ds (stmtLines ss)
  | .whileLoop c ds ss _ => st.headed ("while (" ++ st.exprText c ++ ") \x7b") ds (stmtLines ss)
  | .repeatLoop c ds ss _ => st.headed ("repeat (" ++ st.exprText c ++ ") \x7b") ds (stmtLines ss)
  | .ifThenElse c ds ss eds ess _ =>
    "\n".intercalate (["if (" ++ st.exprText c ++ ") \x7b"] ++ ds.map (st.indented ∘ st.varDeclText) ++
      stmtLines ss ++ ["\x7d", "else \x7b"] ++ eds.map (st.indented ∘ st.varDeclText) ++
      stmtLines ess ++ ["\x7d"])
  | .call c args _ _ => st.use c ++ "(" ++ ", ".intercalate (st.exprTexts args) ++ ");"
  | .ret none _ => "return;"
  | .ret (some v) _ => "return " ++ st.exprText v ++ ";"

/-- The statements of a block, each indented one level. -/
def stmtLines : List Stmt → List String
  | [] => []
  | s :: ss => st.indented (stmtText s) :: stmtLines ss

end

def fnText (f : FnDecl) : String :=
  let params := ", ".intercalate (f.params.map fun p => p.type.name ++ " " ++ p.name.name)
  "\n".intercalate ([f.result.name ++ " " ++ f.name.name ++ "(" ++ params ++ ") \x7b"] ++
    f.decls.map (st.indented ∘ st.varDeclText) ++ st.stmtLines f.body ++ ["\x7d"])

def structText (d : StructDecl) : String :=
  "\n".intercalate (["struct " ++ d.name.name ++ " \x7b"] ++
    d.fields.map (st.indented ∘ st.varDeclText) ++ ["\x7d;"])

/-- The text of one top-level declaration; functions and structs end with a line break. -/
def declText : Decl → String
  | .var d => st.varDeclText d
  | .fn f => st.fnText f ++ "\n"
  | .struct d => st.structText d ++ "\n"

end PrintStyle

/-- The program as egg text: its declarations one per line, and a final line
break; nothing at all for an empty program. -/
def Program.print (st : PrintStyle) (p : Program) : String :=
  match p.decls with
  | [] => ""
  | ds => "\n".intercalate (ds.map st.declText) ++ "\n"

end EggFront
