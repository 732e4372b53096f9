import Mathlib
import EggFront.Proofs.Parse.Errors

/-!
# Name resolution reports in source order

Resolution walks a program once, in the order of its text, and reports each
problem at a name: a declaration's `E304` at the name of its struct type, then
its `E303` and `E301` at the declared name, which comes later; a use's `E302` at
the use; a field access's `E305` at the last name of the access it reads, once
that access is resolved, and its `E306` at the field, which comes after. So
resolving a program that nests reports in order of place
(`Program.resolve_reports_ordered`).

The proof is a calculus of runs. `Resolve.Reports x lo hi Q` says that every
run of `x` that ends without a fault adds diagnostics in order from `lo` to
`hi`, and answers something `Q` holds of. Steps that only look things up or
make symbols report nothing (`Resolve.Quiet`), and a run then another report
up to a place and from it on (`Resolve.Reports.bind`). Each resolution function
reports within the span of the node it resolves; a location reports only up to
where its last name starts, which is where an access to one of its fields
reports next.

With the scanner's order and the parser's, this makes every stage of the front
end report in source order (`reports_in_source_order`).
-/

namespace EggFront

open Resolve

/-! ## Spans spread between two places -/

namespace Span

/-- The spans `cs` lie between `lo` and `hi`, ends included, each ending before
the next one starts. -/
def Spread (cs : List Span) (lo hi : Lex (Int × Int)) : Prop :=
  lo ≤ hi ∧ (∀ c ∈ cs, lo ≤ c.first ∧ c.last ≤ hi) ∧ cs.Pairwise Precedes

variable {c s : Span} {cs cs' : List Span} {lo hi : Lex (Int × Int)}

theorem Holds.spread (h : s.Holds cs) : Spread cs s.first s.last := ⟨h.1, h.2.1, h.2.2⟩

theorem Spread.head (h : Spread (c :: cs) lo hi) : lo ≤ c.first ∧ c.last ≤ hi :=
  h.2.1 c List.mem_cons_self

/-- What follows the first span lies after it. -/
theorem Spread.tail (h : Spread (c :: cs) lo hi) : Spread cs c.last hi := by
  obtain ⟨-, hin, hp⟩ := h
  rw [List.pairwise_cons] at hp
  exact ⟨(hin c List.mem_cons_self).2,
    fun c' hc' => ⟨(hp.1 c' hc').le, (hin c' (List.mem_cons_of_mem c hc')).2⟩, hp.2⟩

/-- Spans spread out, cut where one list of them ends and the next begins. -/
theorem Spread.split (h : Spread (cs ++ cs') lo hi) : ∃ mid, Spread cs lo mid ∧ Spread cs' mid hi := by
  induction cs generalizing lo with
  | nil => exact ⟨lo, ⟨le_rfl, by simp, .nil⟩, h⟩
  | cons c cs ih =>
    obtain ⟨mid, h₁, h₂⟩ := ih h.tail
    have hlo : ∀ x ∈ c :: cs ++ cs', lo ≤ x.first := fun x hx => (h.2.1 x hx).1
    -- `mid` may stand before `lo` when `c` runs backwards; the later of the two serves
    refine ⟨max mid lo, ⟨le_max_right _ _, fun x hx => ⟨hlo x (List.mem_append_left cs' hx), ?_⟩, ?_⟩,
      ⟨max_le h₂.1 h.1, fun x hx => ⟨max_le (h₂.2.1 x hx).1 (hlo x (List.mem_append_right (c :: cs) hx)), (h₂.2.1 x hx).2⟩, h₂.2.2⟩⟩
    · rcases List.mem_cons.1 hx with rfl | hx
      · exact h₁.1.trans (le_max_left _ _)
      · exact (h₁.2.1 x hx).2.trans (le_max_left _ _)
    · exact (List.pairwise_append.1 h.2.2).1

/-- A span that runs forward within `s` starts within it. -/
theorem Within.first_mem (h : c.Within s) (hc : c.first ≤ c.last) : s.first ≤ c.first ∧ c.first ≤ s.last :=
  ⟨h.1, hc.trans h.2⟩

/-- A name that nests, held by a span, starts within the span. -/
theorem Holds.name_mem {i : Ident} (h : s.Holds cs) (hi : i.span ∈ cs) (hn : i.Nests) :
    s.first ≤ i.span.first ∧ i.span.first ≤ s.last :=
  (h.2.1 _ hi).first_mem hn.1

end Span

/-- The last name of a location that nests starts within it. -/
theorem Loc.Nests.lastName_mem {l : Loc} (h : l.Nests) :
    l.span.first ≤ l.lastName.span.first ∧ l.lastName.span.first ≤ l.span.last := by
  obtain ⟨hw, hle⟩ := h.placed.2 _ l.lastName_mem
  exact hw.first_mem hle

/-! ## Runs that report in order -/

namespace Resolve

variable {α β : Type} {x : Resolve α} {lo lo' mid hi hi' : Lex (Int × Int)} {Q : α → Prop}

/-- Every run of `x` that ends without a fault adds diagnostics in order, from `lo`
to `hi`, and answers something `Q` holds of. -/
def Reports (x : Resolve α) (lo hi : Lex (Int × Int)) (Q : α → Prop) : Prop :=
  ∀ st a st', x.exec st = (.ok a, st') → Q a ∧
    ∃ ds, st'.diagnostics.toList = st.diagnostics.toList ++ ds ∧ Diagnostic.Ordered ds lo hi

theorem Reports.mono (h : Reports x lo hi Q) (hlo : lo' ≤ lo) (hhi : hi ≤ hi') : Reports x lo' hi' Q :=
  fun st a st' hx => by
    obtain ⟨ha, ds, hds, hord⟩ := h st a st' hx
    exact ⟨ha, ds, hds, hord.mono hlo hhi⟩

/-- A run reports up to `mid`, then the run after it reports from `mid` on. -/
theorem Reports.bind {f : α → Resolve β} {R : β → Prop} (h : Reports x lo mid Q)
    (hf : ∀ a, Q a → Reports (f a) mid hi R) : Reports (x >>= f) lo hi R := by
  intro st b st'' hx
  obtain ⟨a, st', hx₁, hx₂⟩ := exec_bind_eq_ok hx
  obtain ⟨hq, ds, hds, hord⟩ := h st a st' hx₁
  obtain ⟨hr, ds', hds', hord'⟩ := hf a hq st' b st'' hx₂
  exact ⟨hr, ds ++ ds', by rw [hds', hds, List.append_assoc], hord.append hord'⟩

theorem reports_pure {a : α} (hle : lo ≤ hi) (hq : Q a) : Reports (pure a) lo hi Q :=
  fun st b st' hx => by
    simp only [exec_pure, Prod.mk.injEq, Except.ok.injEq] at hx
    obtain ⟨rfl, rfl⟩ := hx
    exact ⟨hq, [], by simp, Diagnostic.Ordered.nil hle⟩

theorem reports_report {i : NameIssue} {sp : Span} (h₁ : lo ≤ sp.first) (h₂ : sp.first ≤ hi) :
    Reports (report i sp) lo hi fun _ => True :=
  fun st b st' hx => by
    simp only [exec_report, Prod.mk.injEq] at hx
    obtain ⟨-, rfl⟩ := hx
    refine ⟨trivial, [i.toDiagnostic sp], by simp, Diagnostic.Ordered.single ?_ ?_⟩ <;>
      rw [NameIssue.place_toDiagnostic]
    · exact h₁
    · exact h₂

/-- Binding a name keeps its span. -/
theorem reports_bindIdent (i : Ident) (id : SymbolId) (p : Lex (Int × Int)) :
    Reports (bindIdent i id) p p fun i' => i'.span = i.span := by
  intro st a st' hx
  rw [exec_bindIdent_eq] at hx
  split at hx
  · simp only [Prod.mk.injEq, Except.ok.injEq] at hx
    obtain ⟨rfl, rfl⟩ := hx
    exact ⟨rfl, [], by simp, Diagnostic.Ordered.nil le_rfl⟩
  · simp at hx

/-- `x` adds no diagnostic on a run that ends without a fault. -/
def Quiet (x : Resolve α) : Prop :=
  ∀ st a st', x.exec st = (.ok a, st') → st'.diagnostics = st.diagnostics

theorem Quiet.reports (h : Quiet x) (hle : lo ≤ hi) : Reports x lo hi fun _ => True :=
  fun st a st' hx => ⟨trivial, [], by rw [h st a st' hx, List.append_nil], Diagnostic.Ordered.nil hle⟩

theorem Quiet.bind {f : α → Resolve β} (h : Quiet x) (hf : ∀ a, Quiet (f a)) : Quiet (x >>= f) := by
  intro st b st'' hx
  obtain ⟨a, st', hx₁, hx₂⟩ := exec_bind_eq_ok hx
  rw [hf a st' b st'' hx₂, h st a st' hx₁]

theorem quiet_pure (a : α) : Quiet (pure a : Resolve α) := fun st b st' hx => by
  simp only [exec_pure, Prod.mk.injEq] at hx
  rw [← hx.2]

theorem quiet_throw (e : Fault) : Quiet (throw e : Resolve α) := fun st b st' hx => by
  simp at hx

theorem quiet_liftScope (y : Except ScopeError α) : Quiet (liftScope y) := fun st a st' hx => by
  cases y <;> simp_all [exec_liftScope]

theorem quiet_symbol? (id : SymbolId) : Quiet (symbol? id) := fun st a st' hx => by
  simp only [exec_symbol?, Prod.mk.injEq] at hx
  rw [← hx.2]

theorem quiet_addSymbol (s : Symbol) : Quiet (addSymbol s) := fun st a st' hx => by
  simp only [exec_addSymbol, Prod.mk.injEq] at hx
  rw [← hx.2]

theorem quiet_bindIdent (i : Ident) (id : SymbolId) : Quiet (bindIdent i id) := fun st a st' hx => by
  rw [exec_bindIdent_eq] at hx
  split at hx <;> simp_all

theorem quiet_fieldsOf (id : SymbolId) (t : String) : Quiet (fieldsOf id t) := by
  unfold fieldsOf
  refine (quiet_symbol? id).bind fun o => ?_
  split
  · exact quiet_pure _
  · exact quiet_throw _

theorem quiet_recordOf (id : SymbolId) : Quiet (recordOf id) := by
  unfold recordOf
  refine (quiet_symbol? id).bind fun o => ?_
  split
  · exact (quiet_fieldsOf _ _).bind fun _ => quiet_pure _
  · exact quiet_pure _

theorem quiet_recordParams (id : SymbolId) (types : List String) : Quiet (recordParams id types) := by
  unfold recordParams
  refine (quiet_symbol? id).bind fun o => ?_
  split
  · exact fun st a st' hx => by
      simp only [exec_modify, Prod.mk.injEq] at hx
      rw [← hx.2]
  · exact quiet_throw _
  · exact quiet_pure _

/-- A check that reports `i` at `sp` when it fails, and then goes on with `k`. -/
theorem reports_check {γ : Type} {i : NameIssue} {sp : Span} {k : Unit → Resolve γ} {R : γ → Prop}
    (c : Bool) (hk : ∀ u, Reports (k u) sp.first hi R) :
    Reports (if c = true then report i sp >>= k else k ()) sp.first hi R := by
  split
  · exact Reports.bind (reports_report le_rfl le_rfl) fun _ _ => hk _
  · exact hk ()

/-- Making a symbol, declaring a name to it and binding the name report nothing. -/
theorem quiet_declareSymbol {γ : Type} (s : Symbol) (sc : Scopes SymbolId) (x : String) (i : Ident)
    (f : Ident → Scopes SymbolId → γ) :
    Quiet (addSymbol s >>= fun id => liftScope (sc.declare x id) >>= fun sc' =>
      bindIdent i id >>= fun i' => pure (f i' sc')) :=
  (quiet_addSymbol s).bind fun _ => (quiet_liftScope _).bind fun _ => (quiet_bindIdent _ _).bind fun _ =>
    quiet_pure _

end Resolve

/-! ## Names and locations -/

section Locations

variable (scopes : Scopes SymbolId)

/-- A use reports `E302` at itself, and keeps its span. -/
theorem resolveUse_ordered (i : Ident) :
    Reports (resolveUse scopes i) i.span.first i.span.first fun i' => i'.span = i.span := by
  unfold resolveUse
  refine Reports.bind ((quiet_liftScope _).reports le_rfl) fun o _ => ?_
  cases o with
  | some id => exact reports_bindIdent i id _
  | none => exact Reports.bind (reports_report le_rfl le_rfl) fun _ _ => reports_pure le_rfl rfl

/-- An access to a field of `b` reports `E305` at the last name of `b`. -/
theorem fieldScope_ordered (b : Loc) :
    Reports (fieldScope b) b.lastName.span.first b.lastName.span.first fun _ => True := by
  cases b with
  | var i =>
    simp only [fieldScope, Loc.lastName]
    split
    · exact reports_pure le_rfl trivial
    · refine Reports.bind ((quiet_symbol? _).reports le_rfl) fun s _ => ?_
      split
      · exact ((quiet_fieldsOf _ _).bind fun _ => quiet_pure _).reports le_rfl
      · exact Reports.bind (reports_report le_rfl le_rfl) fun _ _ => reports_pure le_rfl trivial
  | field b n sp failed record =>
    simp only [fieldScope, Loc.lastName]
    split
    · exact reports_pure le_rfl trivial
    · split
      · exact Reports.bind (reports_report le_rfl le_rfl) fun _ _ => reports_pure le_rfl trivial
      · exact ((quiet_fieldsOf _ _).bind fun _ => quiet_pure _).reports le_rfl

/-- A location reports from where it starts up to where its last name starts,
and keeps the span of its last name: by induction on the chain, the base first,
then the access to the field after it. -/
theorem resolveLoc_ordered {l : Loc} (hl : l.Nests) :
    Reports (resolveLoc scopes l) l.span.first l.lastName.span.first
      fun l' => l'.lastName.span = l.lastName.span := by
  induction l with
  | var i =>
    rw [resolveLoc]
    exact Reports.bind (resolveUse_ordered scopes i) fun _ hi => reports_pure le_rfl hi
  | field b n sp failed record ih =>
    obtain ⟨hs, hb, hn⟩ := hl
    have hspread := hs.spread
    -- the base's last name lies within the base, which ends before the field starts
    have hbn : b.lastName.span.first ≤ n.span.first :=
      hb.lastName_mem.2.trans hspread.tail.head.1
    rw [resolveLoc]
    refine Reports.bind ((ih hb).mono hspread.head.1 le_rfl) fun b' hb' => ?_
    have hfs := fieldScope_ordered b'
    rw [hb'] at hfs
    refine Reports.bind (hfs.mono le_rfl hbn) fun o _ => ?_
    cases o with
    | none => exact reports_pure le_rfl rfl
    | some fields =>
      refine Reports.bind ((quiet_liftScope _).reports le_rfl) fun o _ => ?_
      cases o with
      | none => exact Reports.bind (reports_report le_rfl le_rfl) fun _ _ => reports_pure le_rfl rfl
      | some id =>
        refine Reports.bind (reports_bindIdent n id _) fun n' hn' => ?_
        refine Reports.bind ((quiet_recordOf _).reports le_rfl) fun o _ => ?_
        split
        · exact reports_pure le_rfl hn'
        · extract_lets jp
          split
          · exact Reports.bind ((quiet_throw _).reports le_rfl) fun _ _ => reports_pure le_rfl hn'
          · exact reports_pure le_rfl hn'

end Locations

/-! ## Expressions -/

section Expressions

variable (scopes : Scopes SymbolId)

mutual

/-- An expression reports within its span: its children one after another. -/
theorem resolveExpr_ordered : ∀ (e : Expr), e.Nests →
    Reports (resolveExpr scopes e) e.span.first e.span.last fun _ => True
  | .int _ _, h | .str _ _, h | .bool _ _, h => by
    simp only [resolveExpr]
    exact reports_pure h.1 trivial
  | .loc l, h => by
    rw [resolveExpr]
    exact Reports.bind ((resolveLoc_ordered scopes h).mono le_rfl h.lastName_mem.2) fun _ _ =>
      reports_pure le_rfl trivial
  | .assign t v _, ⟨hs, ht, hv⟩ => by
    have h := hs.spread
    rw [resolveExpr]
    refine Reports.bind ((resolveLoc_ordered scopes ht).mono h.head.1 (ht.lastName_mem.2.trans h.tail.head.1))
      fun _ _ => ?_
    exact Reports.bind ((resolveExpr_ordered v hv).mono le_rfl h.tail.head.2) fun _ _ => reports_pure le_rfl trivial
  | .call c args _, ⟨hs, hc, hargs⟩ => by
    have h := hs.spread
    rw [resolveExpr]
    refine Reports.bind ((resolveUse_ordered scopes c).mono h.head.1 hc.1) fun _ _ => ?_
    exact Reports.bind (resolveExprs_ordered args hargs h.tail) fun _ _ => reports_pure le_rfl trivial
  | .unary _ e _, ⟨hs, he⟩ => by
    have h := hs.spread
    rw [resolveExpr]
    exact Reports.bind ((resolveExpr_ordered e he).mono h.head.1 h.head.2) fun _ _ => reports_pure le_rfl trivial
  | .binary l _ r _, ⟨hs, hl, hr⟩ => by
    have h := hs.spread
    rw [resolveExpr]
    refine Reports.bind ((resolveExpr_ordered l hl).mono h.head.1 h.tail.head.1) fun _ _ => ?_
    exact Reports.bind ((resolveExpr_ordered r hr).mono le_rfl h.tail.head.2) fun _ _ => reports_pure le_rfl trivial

/-- Expressions spread out report in order, each within its span. -/
theorem resolveExprs_ordered : ∀ (es : List Expr) {lo hi : Lex (Int × Int)}, Expr.AllNest es →
    Span.Spread (es.map Expr.span) lo hi → Reports (resolveExprs scopes es) lo hi fun _ => True
  | [], _, _, _, h => by
    rw [resolveExprs]
    exact reports_pure h.1 trivial
  | e :: es, _, _, ⟨he, hes⟩, h => by
    rw [resolveExprs]
    refine Reports.bind ((resolveExpr_ordered e he).mono h.head.1 le_rfl) fun _ _ => ?_
    exact Reports.bind (resolveExprs_ordered es hes h.tail) fun _ _ => reports_pure le_rfl trivial

end

end Expressions

/-! ## Declarations -/

section Declarations

variable (scopes : Scopes SymbolId)

/-- A variable declaration reports `E304` at the name of its struct type, then
`E303` and `E301` at its own name. -/
theorem declareVar_ordered (ts : Scopes SymbolId) {d : VarDecl} (hd : d.Nests) :
    Reports (declareVar ts scopes d) d.span.first d.span.last fun _ => True := by
  obtain ⟨hs, hty, hn⟩ := hd
  have h := hs.spread
  have hname := hs.name_mem (by simp) hn
  unfold declareVar
  extract_lets isVoid tail typed
  -- the name is checked last, and what is done after reports nothing
  have htail : ∀ x, Reports (tail x) d.name.span.first d.span.last fun _ => True := by
    intro x
    simp -zeta only [tail]
    refine Reports.bind ((quiet_liftScope _).reports le_rfl) fun _ _ => ?_
    extract_lets taken sym rest
    refine reports_check taken fun u => ?_
    simp only [rest]
    split
    · exact reports_pure hname.2 trivial
    · exact (quiet_declareSymbol _ _ _ _ _).reports hname.2
  cases htype : d.type with
  | struct n sp =>
    rw [htype] at hty h
    -- the struct type's name lies before the declared name
    have hn' : d.span.first ≤ n.span.first ∧ n.span.first ≤ d.name.span.first :=
      ⟨h.head.1.trans (hty.1.2.1 _ (by simp)).1,
        hty.2.1.trans ((hty.1.2.1 _ (by simp)).2.trans h.tail.head.1)⟩
    have hv : ¬ isVoid = true := by simp [isVoid, htype]
    rw [if_neg hv]
    simp only [typed, htype]
    have hthen : ∀ y, Reports (pure y >>= tail) n.span.first d.span.last fun _ => True :=
      fun y => Reports.bind (reports_pure (Q := fun _ => True) hn'.2 trivial) fun _ _ => htail _
    refine Reports.bind ((quiet_liftScope _).reports hn'.1) fun o _ => ?_
    cases o with
    | some id =>
      refine Reports.bind ((quiet_symbol? _).reports le_rfl) fun _ _ => ?_
      split
      · exact Reports.bind ((quiet_bindIdent _ _).reports le_rfl) fun _ _ => hthen _
      · exact Reports.bind (reports_report le_rfl le_rfl) fun _ _ => hthen _
    | none => exact Reports.bind (reports_report le_rfl le_rfl) fun _ _ => hthen _
  | void sp =>
    have hv : isVoid = true := by simp [isVoid, htype]
    rw [if_pos hv]
    simp only [typed, htype]
    exact Reports.bind (reports_report hname.1 le_rfl) fun _ _ =>
      Reports.bind (reports_pure (Q := fun _ => True) le_rfl trivial) fun _ _ => htail _
  | int sp | bool sp =>
    have hv : ¬ isVoid = true := by simp [isVoid, htype]
    rw [if_neg hv]
    simp only [typed, htype]
    exact Reports.bind (reports_pure (Q := fun _ => True) hname.1 trivial) fun _ _ => htail _

/-- A parameter reports `E303`, then `E301`, at its name. -/
theorem declareParam_ordered {p : Param} (hp : p.Nests) :
    Reports (declareParam scopes p) p.span.first p.span.last fun _ => True := by
  obtain ⟨hs, -, hn⟩ := hp
  have hname := hs.name_mem (by simp) hn
  unfold declareParam
  extract_lets isVoid tail
  refine (reports_check isVoid fun u => ?_).mono hname.1 le_rfl
  simp -zeta only [tail]
  refine Reports.bind ((quiet_liftScope _).reports le_rfl) fun _ _ => ?_
  extract_lets taken rest
  refine reports_check taken fun u => ?_
  simp only [rest]
  split
  · exact reports_pure hname.2 trivial
  · exact (quiet_declareSymbol _ _ _ _ _).reports hname.2

/-- Variables declared one after another report in order, each within its span. -/
theorem declareVars_ordered (ts? : Option (Scopes SymbolId)) {ds : List VarDecl} (hds : ∀ d ∈ ds, d.Nests) :
    ∀ {scopes : Scopes SymbolId} {lo hi : Lex (Int × Int)}, Span.Spread (ds.map VarDecl.span) lo hi →
      Reports (declareVars ts? ds scopes) lo hi fun _ => True := by
  induction ds with
  | nil =>
    intro scopes lo hi h
    rw [declareVars]
    exact reports_pure h.1 trivial
  | cons d ds ih =>
    intro scopes lo hi h
    simp only [List.mem_cons, forall_eq_or_imp] at hds
    rw [declareVars]
    refine Reports.bind ((declareVar_ordered scopes _ hds.1).mono h.head.1 le_rfl) fun x _ => ?_
    obtain ⟨d', sc⟩ := x
    refine Reports.bind (ih hds.2 h.tail) fun y _ => ?_
    obtain ⟨ds', sc'⟩ := y
    exact reports_pure le_rfl trivial

/-- Parameters declared one after another report in order, each within its span. -/
theorem declareParams_ordered {ps : List Param} (hps : ∀ p ∈ ps, p.Nests) :
    ∀ {scopes : Scopes SymbolId} {lo hi : Lex (Int × Int)}, Span.Spread (ps.map Param.span) lo hi →
      Reports (declareParams ps scopes) lo hi fun _ => True := by
  induction ps with
  | nil =>
    intro scopes lo hi h
    rw [declareParams]
    exact reports_pure h.1 trivial
  | cons p ps ih =>
    intro scopes lo hi h
    simp only [List.mem_cons, forall_eq_or_imp] at hps
    rw [declareParams]
    refine Reports.bind ((declareParam_ordered scopes hps.1).mono h.head.1 le_rfl) fun x _ => ?_
    obtain ⟨p', ty, sc⟩ := x
    refine Reports.bind (ih hps.2 h.tail) fun y _ => ?_
    obtain ⟨ps', tys, sc'⟩ := y
    exact reports_pure le_rfl trivial

end Declarations

/-! ## Statements -/

section Statements

/-- A block reports its declarations' reports, then its statements'. -/
theorem resolveBlock_ordered (scopes : Scopes SymbolId) {ds : List VarDecl} {ss : List Stmt}
    {lo hi : Lex (Int × Int)} (hds : ∀ d ∈ ds, d.Nests)
    (hss : ∀ inner mid, Span.Spread (ss.map Stmt.span) mid hi →
      Reports (resolveStmts inner ss) mid hi fun _ => True)
    (h : Span.Spread (blockSpans ds ss) lo hi) : Reports (resolveBlock scopes ds ss) lo hi fun _ => True := by
  obtain ⟨mid, h₁, h₂⟩ := Span.Spread.split (show Span.Spread (ds.map VarDecl.span ++ ss.map Stmt.span) lo hi from h)
  rw [resolveBlock]
  refine Reports.bind (declareVars_ordered none hds h₁) fun x _ => ?_
  obtain ⟨ds', inner⟩ := x
  refine Reports.bind (hss inner mid h₂) fun _ _ => ?_
  exact Reports.bind ((quiet_liftScope _).reports le_rfl) fun _ _ => reports_pure le_rfl trivial

mutual

/-- A statement reports within its span: its children one after another, and a
block's declarations before its statements. -/
theorem resolveStmt_ordered : ∀ (st : Stmt) {scopes : Scopes SymbolId}, st.Nests →
    Reports (resolveStmt scopes st) st.span.first st.span.last fun _ => True
  | .assign t v a _, scopes, ⟨hs, ha, ht, hv⟩ => by
    have h := ha.spread
    have hin := hs.2.1 a (by simp)
    rw [resolveStmt]
    refine Reports.bind ((resolveLoc_ordered scopes ht).mono (hin.1.trans h.head.1)
      (ht.lastName_mem.2.trans h.tail.head.1)) fun _ _ => ?_
    exact Reports.bind ((resolveExpr_ordered scopes v hv).mono le_rfl (h.tail.head.2.trans hin.2)) fun _ _ =>
      reports_pure le_rfl trivial
  | .increment t _, scopes, ⟨hs, ht⟩ | .decrement t _, scopes, ⟨hs, ht⟩ | .read t _, scopes, ⟨hs, ht⟩ => by
    have h := hs.spread
    rw [resolveStmt]
    exact Reports.bind ((resolveLoc_ordered scopes ht).mono h.head.1 (ht.lastName_mem.2.trans h.head.2))
      fun _ _ => reports_pure le_rfl trivial
  | .write v _, scopes, ⟨hs, hv⟩ | .ret (some v) _, scopes, ⟨hs, hv⟩ => by
    have h := hs.spread
    rw [resolveStmt]
    exact Reports.bind ((resolveExpr_ordered scopes v hv).mono h.head.1 h.head.2) fun _ _ =>
      reports_pure le_rfl trivial
  | .ifThen c ds ss _, scopes, ⟨hs, hc, hds, hss⟩ | .whileLoop c ds ss _, scopes, ⟨hs, hc, hds, hss⟩
  | .repeatLoop c ds ss _, scopes, ⟨hs, hc, hds, hss⟩ => by
    have h := hs.spread
    rw [resolveStmt]
    refine Reports.bind ((resolveExpr_ordered scopes c hc).mono h.head.1 le_rfl) fun _ _ => ?_
    refine Reports.bind (resolveBlock_ordered scopes hds (fun _ _ h' => resolveStmts_ordered ss hss h') h.tail)
      fun x _ => ?_
    obtain ⟨ds', ss'⟩ := x
    exact reports_pure le_rfl trivial
  | .ifThenElse c ds ss eds ess _, scopes, ⟨hs, hc, hds, hss, heds, hess⟩ => by
    have h := hs.spread
    -- the then block ends before the else block starts
    obtain ⟨mid, h₁, h₂⟩ := Span.Spread.split h.tail
    rw [resolveStmt]
    refine Reports.bind ((resolveExpr_ordered scopes c hc).mono h.head.1 le_rfl) fun _ _ => ?_
    refine Reports.bind (resolveBlock_ordered scopes hds (fun _ _ h' => resolveStmts_ordered ss hss h') h₁)
      fun x _ => ?_
    obtain ⟨ds', ss'⟩ := x
    refine Reports.bind (resolveBlock_ordered scopes heds (fun _ _ h' => resolveStmts_ordered ess hess h') h₂)
      fun y _ => ?_
    obtain ⟨eds', ess'⟩ := y
    exact reports_pure le_rfl trivial
  | .call c args a _, scopes, ⟨hs, ha, hc, hargs⟩ => by
    have h := ha.spread
    have hin := hs.2.1 a (by simp)
    rw [resolveStmt]
    refine Reports.bind ((resolveUse_ordered scopes c).mono (hin.1.trans h.head.1) hc.1) fun _ _ => ?_
    exact Reports.bind ((resolveExprs_ordered scopes args hargs h.tail).mono le_rfl hin.2) fun _ _ =>
      reports_pure le_rfl trivial
  | .ret none _, _, hs => by
    rw [resolveStmt]
    exact reports_pure hs.1 trivial

/-- Statements spread out report in order, each within its span. -/
theorem resolveStmts_ordered : ∀ (ss : List Stmt) {scopes : Scopes SymbolId} {lo hi : Lex (Int × Int)},
    Stmt.AllNest ss → Span.Spread (ss.map Stmt.span) lo hi → Reports (resolveStmts scopes ss) lo hi fun _ => True
  | [], _, _, _, _, h => by
    rw [resolveStmts]
    exact reports_pure h.1 trivial
  | st :: ss, _, _, _, ⟨hst, hss⟩, h => by
    rw [resolveStmts]
    refine Reports.bind ((resolveStmt_ordered st hst).mono h.head.1 le_rfl) fun _ _ => ?_
    exact Reports.bind (resolveStmts_ordered ss hss h.tail) fun _ _ => reports_pure le_rfl trivial

end

end Statements

/-! ## Programs -/

section Programs

variable (scopes : Scopes SymbolId)

/-- A function reports `E301` at its name, then what its parameters, its
declarations and its statements report, in the order they come. -/
theorem declareFn_ordered {f : FnDecl} (hf : f.Nests) :
    Reports (declareFn scopes f) f.span.first f.span.last fun _ => True := by
  obtain ⟨hs, hbody, -, hn, hps, hds, hss⟩ := hf
  have h := hs.spread
  have hname := hs.name_mem (by simp) hn
  -- the parameters lie between the name and the body; the body holds the
  -- declarations, then the statements
  obtain ⟨mid, hps', hb⟩ := Span.Spread.split h.tail.tail
  obtain ⟨mid', hds', hss'⟩ :=
    Span.Spread.split (show Span.Spread (f.decls.map VarDecl.span ++ f.body.map Stmt.span) _ _ from hbody.spread)
  unfold declareFn
  refine Reports.bind ((quiet_liftScope _).reports hname.1) fun _ _ => ?_
  extract_lets jp
  have hjp : ∀ x, Reports (jp x) f.name.span.first f.span.last fun _ => True := by
    intro x
    obtain ⟨name, fnId, sc⟩ := x
    simp -zeta only [jp]
    refine Reports.bind ((declareParams_ordered hps hps').mono hn.1 le_rfl) fun y _ => ?_
    obtain ⟨params, types, inner⟩ := y
    extract_lets body
    have hbody' : ∀ u, Reports (body u) mid f.span.last fun _ => True := by
      intro u
      simp only [body]
      refine Reports.bind ((declareVars_ordered none hds hds').mono hb.head.1 le_rfl) fun z _ => ?_
      obtain ⟨decls, inner'⟩ := z
      refine Reports.bind (resolveStmts_ordered f.body hss hss') fun _ _ => ?_
      exact Reports.bind ((quiet_liftScope _).reports hb.head.2) fun _ _ => reports_pure le_rfl trivial
    cases fnId with
    | some id => exact Reports.bind ((quiet_recordParams _ _).reports le_rfl) fun u _ => hbody' u
    | none => exact hbody' ()
  split
  · exact Reports.bind (reports_report le_rfl le_rfl) fun _ _ =>
      Reports.bind (reports_pure (Q := fun _ => True) le_rfl trivial) fun _ _ => hjp _
  · exact Reports.bind ((quiet_addSymbol _).reports le_rfl) fun _ _ =>
      Reports.bind ((quiet_liftScope _).reports le_rfl) fun _ _ =>
        Reports.bind ((quiet_bindIdent _ _).reports le_rfl) fun _ _ =>
          Reports.bind (reports_pure (Q := fun _ => True) le_rfl trivial) fun _ _ => hjp _

/-- A struct reports `E301` at its name, then what its fields report. -/
theorem declareStruct_ordered {d : StructDecl} (hd : d.Nests) :
    Reports (declareStruct scopes d) d.span.first d.span.last fun _ => True := by
  obtain ⟨hs, hn, hfs⟩ := hd
  have h := hs.spread
  have hname := hs.name_mem (by simp) hn
  unfold declareStruct
  refine Reports.bind ((quiet_liftScope _).reports hname.1) fun _ _ => ?_
  extract_lets taken fields
  refine reports_check taken fun u => ?_
  simp only [fields]
  refine Reports.bind ((declareVars_ordered (some scopes) hfs h.tail).mono hn.1 le_rfl) fun x _ => ?_
  obtain ⟨fs, fieldScopes⟩ := x
  split
  · exact reports_pure le_rfl trivial
  · exact (quiet_declareSymbol _ _ _ _ _).reports le_rfl

theorem declareDecl_ordered {d : Decl} (hd : d.Nests) :
    Reports (declareDecl scopes d) d.span.first d.span.last fun _ => True := by
  cases d with
  | var d =>
    rw [declareDecl]
    refine Reports.bind (declareVar_ordered scopes scopes hd) fun x _ => ?_
    obtain ⟨d', sc⟩ := x
    exact reports_pure le_rfl trivial
  | fn f =>
    rw [declareDecl]
    refine Reports.bind (declareFn_ordered scopes hd) fun x _ => ?_
    obtain ⟨f', sc⟩ := x
    exact reports_pure le_rfl trivial
  | struct d =>
    rw [declareDecl]
    refine Reports.bind (declareStruct_ordered scopes hd) fun x _ => ?_
    obtain ⟨d', sc⟩ := x
    exact reports_pure le_rfl trivial

/-- Declarations one after another report in order, each within its span. -/
theorem declareDecls_ordered {ds : List Decl} (hds : ∀ d ∈ ds, d.Nests) :
    ∀ {scopes : Scopes SymbolId} {lo hi : Lex (Int × Int)}, Span.Spread (ds.map Decl.span) lo hi →
      Reports (declareDecls ds scopes) lo hi fun _ => True := by
  induction ds with
  | nil =>
    intro scopes lo hi h
    rw [declareDecls]
    exact reports_pure h.1 trivial
  | cons d ds ih =>
    intro scopes lo hi h
    simp only [List.mem_cons, forall_eq_or_imp] at hds
    rw [declareDecls]
    refine Reports.bind ((declareDecl_ordered scopes hds.1).mono h.head.1 le_rfl) fun x _ => ?_
    obtain ⟨d', sc⟩ := x
    refine Reports.bind (ih hds.2 h.tail) fun y _ => ?_
    obtain ⟨ds', sc'⟩ := y
    exact reports_pure le_rfl trivial

end Programs

/-- **Resolution reports in order.** Resolving a program that nests reports at
places that never go back. -/
theorem Program.resolve_reports_ordered {p : Program} {r : Resolved} (hp : p.Nests) (h : p.resolve = .ok r) :
    r.diagnostics.Pairwise (fun a b => a.place ≤ b.place) := by
  obtain ⟨hs, hds⟩ := hp
  have hrun : Reports (declareDecls p.decls Scopes.initial) p.span.first p.span.last fun _ => True :=
    declareDecls_ordered hds hs.spread
  unfold Program.resolve at h
  split at h
  · rename_i decls sc st hx
    cases h
    obtain ⟨-, ds, hds', hord⟩ := hrun {} _ st hx
    -- resolution starts with no diagnostics
    have hnil : ({} : Resolution).diagnostics.toList = [] := rfl
    rw [hnil, List.nil_append] at hds'
    rw [hds']
    exact hord.2.2
  · cases h

/-- **Every stage reports in source order.** For every source text, the
scanner's diagnostics come at strictly increasing places; if the parser rejects
the tokens, its syntax errors come at places that never go back; and if it reads
a program, resolving the program succeeds and its diagnostics come at places
that never go back. A place is where a diagnostic's first label starts, by line
and then by column. -/
theorem reports_in_source_order (file s : String) :
    (scan file s).diagnostics.Pairwise (fun a b => a.place < b.place) ∧
      (∀ errs, Program.parse (scan file s).tokens (scan file s).eof = .error errs →
        (errs.map SyntaxError.toDiagnostic).Pairwise (fun a b => a.place ≤ b.place)) ∧
      ∀ p, Program.parse (scan file s).tokens (scan file s).eof = .ok p →
        ∃ r, p.resolve = .ok r ∧ r.diagnostics.Pairwise (fun a b => a.place ≤ b.place) := by
  obtain ⟨hord, hstart⟩ := scanFrom_inOrder file s.toList Position.first
  have heof : (scan file s).eof.kind = .eof := scanFrom_eof_kind _ _ _
  refine ⟨scan_diagnostics_ordered file s, fun errs h => Program.parse_errors_ordered heof (scanFrom_unmarked _ _ _) hord h, fun p h => ?_⟩
  obtain ⟨r, hr, -⟩ := Program.resolve_spec (Program.parse_fresh heof h)
  exact ⟨r, hr, Program.resolve_reports_ordered (Program.nests_of_parse heof (scanFrom_unmarked _ _ _) h hord hstart) hr⟩

end EggFront
