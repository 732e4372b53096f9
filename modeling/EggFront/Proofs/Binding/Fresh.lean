import EggFront.Proofs.Parse.SoundProgram

/-!
# Programs before resolution

Resolution writes two annotations into a tree, each once: the symbol of every
name, and the failure mark and struct type of every field access. A program as
the parser builds it has none of them, and its parameters and function results
are of base type (`Program.Fresh`). Every tree of the grammar is fresh, so every
program the parser returns is (`Program.parse_fresh`).
-/

namespace EggFront

/-- A base type: `int`, `bool` or `void`. -/
def TypeExpr.IsBase : TypeExpr → Prop
  | .struct .. => False
  | _ => True

def TypeExpr.Fresh : TypeExpr → Prop
  | .struct n _ => n.sym = none
  | _ => True

theorem TypeExpr.IsBase.fresh {t : TypeExpr} (h : t.IsBase) : t.Fresh := by
  cases t <;> simp_all [IsBase, Fresh]

def Loc.Fresh : Loc → Prop
  | .var i => i.sym = none
  | .field b n _ failed record => b.Fresh ∧ n.sym = none ∧ failed = false ∧ record = none

mutual

def Expr.Fresh : Expr → Prop
  | .int .. | .str .. | .bool .. => True
  | .loc l => l.Fresh
  | .assign t v _ => t.Fresh ∧ v.Fresh
  | .call c args _ => c.sym = none ∧ Expr.AllFresh args
  | .unary _ e _ => e.Fresh
  | .binary l _ r _ => l.Fresh ∧ r.Fresh

/-- Every expression of a list is fresh. -/
def Expr.AllFresh : List Expr → Prop
  | [] => True
  | e :: es => e.Fresh ∧ Expr.AllFresh es

end

def VarDecl.Fresh (d : VarDecl) : Prop := d.type.Fresh ∧ d.name.sym = none

def Param.Fresh (p : Param) : Prop := p.type.IsBase ∧ p.name.sym = none

mutual

def Stmt.Fresh : Stmt → Prop
  | .assign t v _ _ => t.Fresh ∧ v.Fresh
  | .increment t _ | .decrement t _ | .read t _ => t.Fresh
  | .write v _ => v.Fresh
  | .ifThen c ds ss _ | .whileLoop c ds ss _ | .repeatLoop c ds ss _ =>
    c.Fresh ∧ (∀ d ∈ ds, d.Fresh) ∧ Stmt.AllFresh ss
  | .ifThenElse c ds ss eds ess _ =>
    c.Fresh ∧ (∀ d ∈ ds, d.Fresh) ∧ Stmt.AllFresh ss ∧ (∀ d ∈ eds, d.Fresh) ∧ Stmt.AllFresh ess
  | .call c args _ _ => c.sym = none ∧ Expr.AllFresh args
  | .ret (some v) _ => v.Fresh
  | .ret none _ => True

/-- Every statement of a list is fresh. -/
def Stmt.AllFresh : List Stmt → Prop
  | [] => True
  | s :: ss => s.Fresh ∧ Stmt.AllFresh ss

end

def FnDecl.Fresh (f : FnDecl) : Prop :=
  f.result.IsBase ∧ f.name.sym = none ∧ (∀ p ∈ f.params, p.Fresh) ∧ (∀ d ∈ f.decls, d.Fresh) ∧
    Stmt.AllFresh f.body

def StructDecl.Fresh (d : StructDecl) : Prop := d.name.sym = none ∧ ∀ f ∈ d.fields, f.Fresh

def Decl.Fresh : Decl → Prop
  | .var d => d.Fresh
  | .fn f => f.Fresh
  | .struct d => d.Fresh

/-- A program as the parser builds it, before resolution. -/
def Program.Fresh (p : Program) : Prop := ∀ d ∈ p.decls, d.Fresh

/-! ## The grammar builds fresh trees -/

namespace Grammar

variable {parens : Bool}

theorem LocOf.fresh {w : List Lexeme} {l : Loc} : LocOf w l → l.Fresh
  | .var => rfl
  | .field h => ⟨h.fresh, rfl, rfl, rfl⟩

theorem TargetOf.fresh {w : List Lexeme} {l : Loc} : TargetOf parens w l → l.Fresh
  | .loc h => h.fresh
  | .paren _ h => h.fresh

mutual

theorem ExpOf.fresh {ℓ : Nat} {w : List Lexeme} {e : Expr} : ExpOf parens ℓ w e → e.Fresh
  | .term h => h.fresh
  | .unary h => h.fresh
  | .binary _ hl hr | .compare _ hl hr => ⟨hl.fresh, hr.fresh⟩
  | .assign ht hv => ⟨ht.fresh, hv.fresh⟩
  | .lift h _ => h.fresh

theorem TermOf.fresh {w : List Lexeme} {e : Expr} : TermOf parens w e → e.Fresh
  | .intLit | .strLit | .trueLit | .falseLit => trivial
  | .loc h => h.fresh
  | .paren h => h.fresh
  | .call h => ⟨rfl, h.fresh⟩

theorem ArgsOf.fresh {w : List Lexeme} {es : List Expr} : ArgsOf parens w es → Expr.AllFresh es
  | .none => trivial
  | .some h hs => ⟨h.fresh, hs.fresh⟩

theorem MoreArgsOf.fresh {w : List Lexeme} {es : List Expr} :
    MoreArgsOf parens w es → Expr.AllFresh es
  | .nil => trivial
  | .comma h hs => ⟨h.fresh, hs.fresh⟩

end

theorem BaseTypeOf.isBase {a : Lexeme} {ty : TypeExpr} : BaseTypeOf a ty → ty.IsBase
  | .int | .bool | .void => trivial

theorem VarDeclOf.fresh {w : List Lexeme} {d : VarDecl} : VarDeclOf w d → d.Fresh
  | .base h => ⟨h.isBase.fresh, rfl⟩
  | .struct => ⟨rfl, rfl⟩

theorem VarDeclsOf.fresh {w : List Lexeme} {ds : List VarDecl} :
    VarDeclsOf w ds → ∀ d ∈ ds, d.Fresh
  | .nil => by simp
  | .cons h hs => by
    simp only [List.mem_cons, forall_eq_or_imp]
    exact ⟨h.fresh, hs.fresh⟩

mutual

theorem StmtOf.fresh {w : List Lexeme} {st : Stmt} : StmtOf parens w st → st.Fresh
  | .assign ht hv => ⟨ht.fresh, hv.fresh⟩
  | .increment h | .decrement h | .read h => h.fresh
  | .write h | .retSome h => h.fresh
  | .ifThen hc hb | .whileLoop hc hb | .repeatLoop hc hb => ⟨hc.fresh, hb.fresh⟩
  | .ifThenElse hc hb he => ⟨hc.fresh, hb.fresh.1, hb.fresh.2, he.fresh⟩
  | .call h => ⟨rfl, h.fresh⟩
  | .retNone => trivial

theorem StmtsOf.fresh {w : List Lexeme} {ss : List Stmt} : StmtsOf parens w ss → Stmt.AllFresh ss
  | .nil => trivial
  | .cons h hs => ⟨h.fresh, hs.fresh⟩

theorem BlockOf.fresh {w : List Lexeme} {ds : List VarDecl} {ss : List Stmt} :
    BlockOf parens w ds ss → (∀ d ∈ ds, d.Fresh) ∧ Stmt.AllFresh ss
  | .mk hd hs => ⟨hd.fresh, hs.fresh⟩

end

theorem ParamOf.fresh {w : List Lexeme} {p : Param} : ParamOf w p → p.Fresh
  | .mk h => ⟨h.isBase, rfl⟩

theorem MoreParamsOf.fresh {w : List Lexeme} {ps : List Param} :
    MoreParamsOf w ps → ∀ p ∈ ps, p.Fresh
  | .nil => by simp
  | .comma h hs => by
    simp only [List.mem_cons, forall_eq_or_imp]
    exact ⟨h.fresh, hs.fresh⟩

theorem ParamsOf.fresh {w : List Lexeme} {ps : List Param} : ParamsOf w ps → ∀ p ∈ ps, p.Fresh
  | .none => by simp
  | .some h hs => by
    simp only [List.mem_cons, forall_eq_or_imp]
    exact ⟨h.fresh, hs.fresh⟩

theorem DeclOf.fresh {w : List Lexeme} {d : Decl} : DeclOf parens w d → d.Fresh
  | .var h => h.fresh
  | .fn ht hp hb => ⟨ht.isBase, rfl, hp.fresh, hb.fresh.1, hb.fresh.2⟩
  | .struct h hs => by
    refine ⟨rfl, ?_⟩
    simp only [List.mem_cons, forall_eq_or_imp]
    exact ⟨h.fresh, hs.fresh⟩

theorem DeclsOf.fresh {w : List Lexeme} {ds : List Decl} : DeclsOf parens w ds → ∀ d ∈ ds, d.Fresh
  | .nil => by simp
  | .cons h hs => by
    simp only [List.mem_cons, forall_eq_or_imp]
    exact ⟨h.fresh, hs.fresh⟩

theorem ProgramOf.fresh {w : List Lexeme} {p : Program} : ProgramOf parens w p → p.Fresh
  | .mk h => h.fresh

end Grammar

/-- **The parser builds fresh programs.** -/
theorem Program.parse_fresh {ts : List Token} {eof : Token} {p : Program} (heof : eof.kind = .eof)
    (h : Program.parse ts eof = .ok p) : p.Fresh := by
  obtain ⟨ts', e, heq, -, hend⟩ := Program.parse_eq_parseBefore ts eof
  rw [heq] at h
  exact (Program.parseBefore_sound (hend heof) h).fresh

end EggFront
