import Mathlib
import EggFront.Editor

/-!
# Spans that nest

A span names the places of its first and last characters. In source order, by
line and then by column, a syntax tree *nests* when every node's span runs
forward, holds the spans of the node's children, and those children come one
after another in the order of the node's fields, each ending before the next
starts (`Span.Holds`). The children of a node are its fields other than its
span, list elements included: a statement's assignment or call is a node of its
own, with its own span, and a function's body, from brace to brace, holds the
body's declarations and statements.

An editor's outline shows each top-level declaration with the range of its
span and that of its name; a struct's entry holds one for each field. The
editor counts from 0 and ends a range at the place just past its last
character, which keeps source order: so the outline of a declaration that
nests has each name's range inside its entry's, and each field's entry inside
its struct's (`Decl.outline_nests`).
-/

namespace EggFront

/-! ## Source order -/

namespace Span

/-- Where a span starts, in source order. -/
def first (s : Span) : Lex (Int × Int) := toLex (s.startLine, s.startCol)

/-- The place of a span's last character. -/
def last (s : Span) : Lex (Int × Int) := toLex (s.endLine, s.endCol)

@[simp] theorem first_through (a b : Span) : (a.through b).first = a.first := rfl

@[simp] theorem last_through (a b : Span) : (a.through b).last = b.last := rfl

/-- `s` lies within `o`. -/
def Within (s o : Span) : Prop := o.first ≤ s.first ∧ s.last ≤ o.last

/-- `s` ends before `o` starts. -/
def Precedes (s o : Span) : Prop := s.last < o.first

/-- The span runs forward and holds the spans `cs`, one after another. -/
def Holds (s : Span) (cs : List Span) : Prop :=
  s.first ≤ s.last ∧ (∀ c ∈ cs, c.Within s) ∧ cs.Pairwise Precedes

end Span

/-! ## Trees that nest -/

def Ident.Nests (i : Ident) : Prop := i.span.Holds []

def TypeExpr.Nests : TypeExpr → Prop
  | .struct n s => s.Holds [n.span] ∧ n.Nests
  | t => t.span.Holds []

def Loc.Nests : Loc → Prop
  | .var n => n.Nests
  | .field b n s _ _ => s.Holds [b.span, n.span] ∧ b.Nests ∧ n.Nests

mutual

def Expr.Nests : Expr → Prop
  | .int _ s | .str _ s | .bool _ s => s.Holds []
  | .loc l => l.Nests
  | .assign t v s => s.Holds [t.span, v.span] ∧ t.Nests ∧ v.Nests
  | .call c args s => s.Holds (c.span :: args.map Expr.span) ∧ c.Nests ∧ Expr.AllNest args
  | .unary _ e s => s.Holds [e.span] ∧ e.Nests
  | .binary l _ r s => s.Holds [l.span, r.span] ∧ l.Nests ∧ r.Nests

/-- Every expression of the list nests. -/
def Expr.AllNest : List Expr → Prop
  | [] => True
  | e :: es => e.Nests ∧ Expr.AllNest es

end

def VarDecl.Nests (d : VarDecl) : Prop :=
  d.span.Holds [d.type.span, d.name.span] ∧ d.type.Nests ∧ d.name.Nests

def Param.Nests (p : Param) : Prop :=
  p.span.Holds [p.type.span, p.name.span] ∧ p.type.Nests ∧ p.name.Nests

/-- The spans of a block's declarations, then of its statements. -/
def blockSpans (ds : List VarDecl) (ss : List Stmt) : List Span :=
  ds.map VarDecl.span ++ ss.map Stmt.span

mutual

def Stmt.Nests : Stmt → Prop
  | .assign t v a s => s.Holds [a] ∧ a.Holds [t.span, v.span] ∧ t.Nests ∧ v.Nests
  | .increment t s | .decrement t s | .read t s => s.Holds [t.span] ∧ t.Nests
  | .write v s => s.Holds [v.span] ∧ v.Nests
  | .ifThen c ds ss s | .whileLoop c ds ss s | .repeatLoop c ds ss s =>
    s.Holds (c.span :: blockSpans ds ss) ∧ c.Nests ∧ (∀ d ∈ ds, d.Nests) ∧ Stmt.AllNest ss
  | .ifThenElse c ds ss eds ess s =>
    s.Holds (c.span :: blockSpans ds ss ++ blockSpans eds ess) ∧ c.Nests ∧ (∀ d ∈ ds, d.Nests) ∧
      Stmt.AllNest ss ∧ (∀ d ∈ eds, d.Nests) ∧ Stmt.AllNest ess
  | .call c args a s =>
    s.Holds [a] ∧ a.Holds (c.span :: args.map Expr.span) ∧ c.Nests ∧ Expr.AllNest args
  | .ret (some v) s => s.Holds [v.span] ∧ v.Nests
  | .ret none s => s.Holds []

/-- Every statement of the list nests. -/
def Stmt.AllNest : List Stmt → Prop
  | [] => True
  | st :: ss => st.Nests ∧ Stmt.AllNest ss

end

def FnDecl.Nests (f : FnDecl) : Prop :=
  f.span.Holds (f.result.span :: f.name.span :: f.params.map Param.span ++ [f.bodySpan]) ∧
    f.bodySpan.Holds (blockSpans f.decls f.body) ∧ f.result.Nests ∧ f.name.Nests ∧
    (∀ p ∈ f.params, p.Nests) ∧ (∀ d ∈ f.decls, d.Nests) ∧ Stmt.AllNest f.body

def StructDecl.Nests (d : StructDecl) : Prop :=
  d.span.Holds (d.name.span :: d.fields.map VarDecl.span) ∧ d.name.Nests ∧ ∀ f ∈ d.fields, f.Nests

def Decl.span : Decl → Span
  | .var d => d.span
  | .fn f => f.span
  | .struct d => d.span

def Decl.Nests : Decl → Prop
  | .var d => d.Nests
  | .fn f => f.Nests
  | .struct d => d.Nests

def Program.Nests (p : Program) : Prop :=
  p.span.Holds (p.decls.map Decl.span) ∧ ∀ d ∈ p.decls, d.Nests

@[simp] theorem Expr.allNest_iff {es : List Expr} : Expr.AllNest es ↔ ∀ e ∈ es, e.Nests := by
  induction es with
  | nil => simp [Expr.AllNest]
  | cons e es ih => simp [Expr.AllNest, ih]

@[simp] theorem Stmt.allNest_iff {ss : List Stmt} : Stmt.AllNest ss ↔ ∀ st ∈ ss, st.Nests := by
  induction ss with
  | nil => simp [Stmt.AllNest]
  | cons st ss ih => simp [Stmt.AllNest, ih]

/-! ## Outlines -/

/-- Places in an editor, in source order. -/
def Place.key (p : Place) : Lex (Int × Int) := toLex (p.line, p.character)

/-- `r` lies within `o`. -/
def Range.Within (r o : Range) : Prop := o.start.key ≤ r.start.key ∧ r.stop.key ≤ o.stop.key

def Outline.range : Outline → Range
  | .mk _ _ range _ _ _ => range

mutual

/-- An outline entry nests when its name's range lies within its own range, and
so does each child's, which nests in turn. -/
def Outline.Nests : Outline → Prop
  | .mk _ _ range selection _ children => selection.Within range ∧ Outline.AllNestIn range children

/-- Every entry of the list lies within `range` and nests. -/
def Outline.AllNestIn (range : Range) : List Outline → Prop
  | [] => True
  | o :: os => o.range.Within range ∧ o.Nests ∧ Outline.AllNestIn range os

end

@[simp] theorem Outline.allNestIn_iff {range : Range} {os : List Outline} :
    Outline.AllNestIn range os ↔ ∀ o ∈ os, o.range.Within range ∧ o.Nests := by
  induction os with
  | nil => simp [Outline.AllNestIn]
  | cons o os ih => simp [Outline.AllNestIn, ih, and_assoc]

/-- Counting from 0 and ending past the last character keeps source order. -/
theorem Span.Within.toRange {s o : Span} (h : s.Within o) : s.toRange.Within o.toRange := by
  obtain ⟨h₁, h₂⟩ := h
  simp only [Span.first, Span.last, Prod.Lex.toLex_le_toLex] at h₁ h₂
  simp only [Range.Within, Span.toRange, Place.key, Prod.Lex.toLex_le_toLex]
  omega

theorem VarDecl.outline_nests {v : VarDecl} (h : v.Nests) : (Document.varOutline v).Nests := by
  obtain ⟨⟨-, hin, -⟩, -⟩ := h
  simp only [Document.varOutline, Outline.Nests, Outline.AllNestIn, and_true]
  exact (hin _ (by simp)).toRange

/-- **Outlines nest.** The outline entry of a declaration that nests has its
name's range within its own, and a struct's entry holds its fields' entries
within its range, each with its name's range within its own. -/
theorem Decl.outline_nests {d : Decl} (h : d.Nests) : (Document.declOutline d).Nests := by
  cases d with
  | var v => exact VarDecl.outline_nests h
  | fn f =>
    obtain ⟨⟨-, hin, -⟩, -⟩ := h
    simp only [Document.declOutline, Outline.Nests, Outline.AllNestIn, and_true]
    exact (hin _ (by simp)).toRange
  | struct s =>
    obtain ⟨⟨-, hin, -⟩, -, hfields⟩ := h
    simp only [Document.declOutline, Outline.Nests, Outline.allNestIn_iff, List.mem_map]
    refine ⟨(hin _ (by simp)).toRange, ?_⟩
    rintro _ ⟨v, hv, rfl⟩
    exact ⟨(hin _ (List.mem_cons_of_mem _ (List.mem_map_of_mem hv))).toRange,
      VarDecl.outline_nests (hfields v hv)⟩

end EggFront
