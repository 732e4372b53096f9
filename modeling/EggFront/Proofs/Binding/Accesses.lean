import Mathlib
import EggFront.Proofs.Binding.Lexical

/-!
# What resolution reports at each access

An *access* is a place where a program uses a name: a location it reads or
writes, that is a name alone or a chain `r.f₁.f₂…` of field accesses on the name
`r`, and a callee, taken as the location of its name (`Program.accesses`, in
source order). An access can have three issues, each reported at one of its
names: a name declared nowhere (`E302`), a dot on no struct (`E305`), a field its
struct lacks (`E306`). Declarations report other issues.

Resolving a chain goes link by link from its root (`resolveLoc_chain`):

* failure goes outward (`Loc.FailsOutward`): a link whose prefix failed fails
  too, and silently, so that a chain reports once at most, where it broke;
* a link that did not fail has its field bound to the symbol that its prefix's
  struct type holds for the field among its fields, and records that symbol's
  struct type when the symbol is a struct variable (`Loc.FieldsBound`).

Over a whole program (`Program.resolve_accesses`) the access issues reported
are those of the program's accesses, one after another, each access's own
(`ReportsOf`): one for an access that failed, none for one that did not.

## The proof

One lemma per resolution function, forward as in `Faultless`, says what the
accesses it resolved report (`Traced`). The one fact it needs of the store is
that each struct type holds in its fields only symbols made before it
(`Resolution.FieldsKnown`): so the symbol a field is bound to is in the store
when its chain is resolved, and what the link records is read off that symbol
for good. A declaration keeps that fact and reports no access issue
(`Declares`), as its inversion lemma shows (`declareVar_cases`,
`declareParam_cases`).
-/

namespace EggFront

open Resolve

/-! ## Accesses -/

/-- Whether an access failed: its name left unbound, or, for a field access, marked failed. -/
def Loc.errored : Loc → Bool
  | .var i => i.sym.isNone
  | .field _ _ _ failed _ => failed

/-- The name an access ends with. -/
def Loc.lastName : Loc → Ident
  | .var i => i
  | .field _ n .. => n

theorem Loc.lastName_mem (l : Loc) : l.lastName ∈ l.names := by
  cases l <;> simp [Loc.lastName, Loc.names]

mutual

/-- The accesses of an expression, in source order: its locations, and each callee
as the location of its name. -/
def Expr.accesses : Expr → List Loc
  | .int .. | .str .. | .bool .. => []
  | .loc l => [l]
  | .assign t v _ => t :: v.accesses
  | .call c args _ => .var c :: Expr.accessesOf args
  | .unary _ e _ => e.accesses
  | .binary l _ r _ => l.accesses ++ r.accesses

def Expr.accessesOf : List Expr → List Loc
  | [] => []
  | e :: es => e.accesses ++ Expr.accessesOf es

end

mutual

def Stmt.accesses : Stmt → List Loc
  | .assign t v _ _ => t :: v.accesses
  | .increment t _ | .decrement t _ | .read t _ => [t]
  | .write v _ => v.accesses
  | .ifThen c _ ss _ | .whileLoop c _ ss _ | .repeatLoop c _ ss _ => c.accesses ++ Stmt.accessesOf ss
  | .ifThenElse c _ ss _ ess _ => c.accesses ++ Stmt.accessesOf ss ++ Stmt.accessesOf ess
  | .call c args _ _ => .var c :: Expr.accessesOf args
  | .ret (some v) _ => v.accesses
  | .ret none _ => []

def Stmt.accessesOf : List Stmt → List Loc
  | [] => []
  | s :: ss => s.accesses ++ Stmt.accessesOf ss

end

/-- The accesses of a declaration: those of a function's body. -/
def Decl.accesses : Decl → List Loc
  | .fn f => Stmt.accessesOf f.body
  | _ => []

/-- Every access of the program, in source order. -/
def Program.accesses (p : Program) : List Loc := p.decls.flatMap Decl.accesses

/-! ## Access issues -/

/-- The issues an access can have: a name declared nowhere, a dot on no struct, a
field its struct lacks. -/
def accessIssues : List NameIssue := [.undeclared, .notAStruct, .noSuchField]

/-- Whether a diagnostic reports an access issue: `E302`, `E305` or `E306`. -/
def Diagnostic.isAccess (d : Diagnostic) : Bool := d.code ∈ ["E302", "E305", "E306"]

@[simp] theorem NameIssue.isAccess_toDiagnostic (i : NameIssue) (sp : Span) :
    (i.toDiagnostic sp).isAccess = decide (i ∈ accessIssues) := by
  cases i <;> rfl

/-- What resolving the access `l` reported: one diagnostic if `l` errored and none
otherwise, each an access issue at one of `l`'s names. -/
def Loc.Reports (l : Loc) (ds : List Diagnostic) : Prop :=
  ds.length = (if l.errored then 1 else 0) ∧
    ∀ d ∈ ds, ∃ i ∈ l.names, ∃ issue ∈ accessIssues, d = issue.toDiagnostic i.span

/-- The access issues `ds` are those of the accesses `ls`: each access's own, one
after another. -/
def ReportsOf (ls : List Loc) (ds : List Diagnostic) : Prop :=
  ∃ parts, List.Forall₂ Loc.Reports ls parts ∧ ds = parts.flatten

section Reports

variable {l : Loc} {ls ls₁ ls₂ : List Loc} {ds ds₁ ds₂ : List Diagnostic}

theorem Loc.Reports.isAccess (h : l.Reports ds) : ∀ d ∈ ds, d.isAccess := by
  intro d hd
  obtain ⟨i, -, issue, hissue, rfl⟩ := h.2 d hd
  simpa using hissue

theorem Loc.Reports.filter_isAccess (h : l.Reports ds) : ds.filter (·.isAccess) = ds :=
  List.filter_eq_self.2 h.isAccess

/-- A link reports what its prefix did, and what it adds at one of its own names. -/
theorem Loc.Reports.extend {b : Loc} (hb : b.Reports ds₁) (hnames : ∀ i ∈ b.names, i ∈ l.names)
    (hlen : ds₁.length + ds₂.length = if l.errored then 1 else 0)
    (hown : ∀ d ∈ ds₂, ∃ i ∈ l.names, ∃ issue ∈ accessIssues, d = issue.toDiagnostic i.span) :
    l.Reports (ds₁ ++ ds₂) := by
  refine ⟨by rw [List.length_append, hlen], fun d hd => ?_⟩
  rcases List.mem_append.1 hd with hd | hd
  · obtain ⟨i, hi, issue, hissue, rfl⟩ := hb.2 d hd
    exact ⟨i, hnames i hi, issue, hissue, rfl⟩
  · exact hown d hd

theorem ReportsOf.nil : ReportsOf [] [] := ⟨[], .nil, rfl⟩

theorem Loc.Reports.reportsOf (h : l.Reports ds) : ReportsOf [l] ds :=
  ⟨[ds], .cons h .nil, by simp⟩

theorem ReportsOf.append (h₁ : ReportsOf ls₁ ds₁) (h₂ : ReportsOf ls₂ ds₂) :
    ReportsOf (ls₁ ++ ls₂) (ds₁ ++ ds₂) := by
  obtain ⟨p₁, hp₁, rfl⟩ := h₁
  obtain ⟨p₂, hp₂, rfl⟩ := h₂
  exact ⟨p₁ ++ p₂, List.rel_append hp₁ hp₂, by simp⟩

end Reports

/-! ## Chains -/

/-- The struct type of a struct variable's symbol. -/
def Symbol.record? : Symbol → Option SymbolId
  | .structVar _ d => some d
  | _ => none

/-- The struct type whose fields `base.f` reads: that of the struct variable the
name `base` is bound to, or the one the access `base` records. -/
def Loc.structOf (syms : Array Symbol) : Loc → Option SymbolId
  | .var i => i.sym.bind fun id => syms[id.index]?.bind Symbol.record?
  | .field _ _ _ _ record => record

/-- Failure goes outward along a chain: a link whose prefix errored is errored. -/
def Loc.FailsOutward : Loc → Prop
  | .var _ => True
  | .field b _ _ failed _ => (b.errored = true → failed = true) ∧ b.FailsOutward

/-- Each link of a chain that did not fail has its field bound to the symbol `s`
that its prefix's struct type holds for the field's name among its fields, and
records `s`'s struct type: a struct variable's, none for any other symbol. -/
def Loc.FieldsBound (syms : Array Symbol) : Loc → Prop
  | .var _ => True
  | .field b n _ failed record =>
    (failed = false → ∃ d fs fid s, b.structOf syms = some d ∧ syms[d.index]? = some (.structDef fs) ∧
      fs.lookup n.name = .ok (some fid) ∧ syms[fid.index]? = some s ∧ n.sym = some fid ∧
      record = s.record?) ∧
    b.FieldsBound syms

/-! ## Stores -/

namespace Resolution

variable {st st' : Resolution} {ds : List Diagnostic}

/-- A symbol of the store stays in a store that extends it. -/
theorem Extends.symbol_eq (he : st.Extends st' ds) {i : Nat} {s : Symbol}
    (hs : st.symbols[i]? = some s) : st'.symbols[i]? = some s :=
  (he.keeps i (Array.getElem?_eq_some_iff.1 hs).1).trans hs

/-- Each struct type of the store holds in its fields only symbols made before it. -/
def FieldsKnown (st : Resolution) : Prop :=
  ∀ (i : Nat) fs, st.symbols[i]? = some (.structDef fs) →
    ∀ x fid, Scopes.find? fs.frames x = some fid → fid.index < i

theorem FieldsKnown.of_symbols_eq (h : st.FieldsKnown) (hs : st'.symbols = st.symbols) :
    st'.FieldsKnown := fun i fs hi => h i fs (hs ▸ hi)

/-- A symbol that is no struct type may be added. -/
theorem FieldsKnown.push (h : st.FieldsKnown) {s : Symbol} (hs : s.isStructDef = false) :
    FieldsKnown { st with symbols := st.symbols.push s } := by
  intro i fs hi
  rw [Array.getElem?_push] at hi
  split at hi
  · cases hi
    cases hs
  · exact h i fs hi

/-- Changing a function's symbol keeps every struct type. -/
theorem FieldsKnown.setFunction (h : st.FieldsKnown) {k : Nat} {r r' : String}
    {ps ps' : Option (List String)} (hk : st.symbols[k]? = some (.function r ps)) :
    FieldsKnown { st with symbols := st.symbols.setIfInBounds k (.function r' ps') } := by
  intro i fs hi
  by_cases hki : k = i
  · subst hki
    have hlt : k < st.symbols.size := (Array.getElem?_eq_some_iff.1 hk).1
    simp [Array.getElem?_setIfInBounds_self_of_lt hlt] at hi
  · rw [Array.getElem?_setIfInBounds_ne hki] at hi
    exact h i fs hi

end Resolution

section Scopes

variable {sc sc' : Scopes SymbolId} {n m : Nat}

/-- Every symbol the scopes bind a name to was made before the `n`-th. -/
def Scopes.Below (sc : Scopes SymbolId) (n : Nat) : Prop :=
  ∀ x id, Scopes.find? sc.frames x = some id → id.index < n

theorem Scopes.frames_ne_nil_of_declare {x : String} {id : SymbolId} (hd : sc.declare x id = .ok sc') :
    sc'.frames ≠ [] := by
  unfold Scopes.declare at hd
  split at hd
  · split at hd
    · cases hd
    · cases hd
      simp
  · cases hd

theorem Scopes.below_initial (n : Nat) : (Scopes.initial : Scopes SymbolId).Below n := by
  intro x id h
  simp [Scopes.initial, Scopes.find?] at h

/-- Declaring a name to the `n`-th symbol keeps the scopes below the next. -/
theorem Scopes.Below.declare (h : sc.Below n) {x : String} (hd : sc.declare x ⟨n⟩ = .ok sc') :
    sc'.Below (n + 1) := by
  unfold Scopes.declare at hd
  split at hd
  · next f rest hfr =>
    split at hd
    · cases hd
    · next hx =>
      cases hd
      have hnone : f.find? x = none := Option.not_isSome_iff_eq_none.1 hx
      intro y id hy
      simp only [Scopes.find?, Frame.find?_add hnone] at hy
      by_cases hyx : y = x
      · simp only [hyx, if_true, Option.some_or, Option.some.injEq] at hy
        rw [← hy]
        exact Nat.lt_succ_self n
      · simp only [hyx, if_false] at hy
        exact Nat.lt_succ_of_lt (h y id (by simp only [hfr, Scopes.find?]; exact hy))
  · cases hd

/-- A struct type whose fields' symbols were all made before it may be added. -/
theorem Resolution.FieldsKnown.push_structDef {st : Resolution} (h : st.FieldsKnown)
    (hfs : sc.Below st.symbols.size) :
    Resolution.FieldsKnown { st with symbols := st.symbols.push (.structDef sc) } := by
  intro i fs hi
  rw [Array.getElem?_push] at hi
  split at hi
  · next hsize =>
    cases hi
    subst hsize
    exact hfs
  · exact h i fs hi

end Scopes

/-! ## Declarations -/

/-- What a run of declarations does, from the store `st` and the scopes `sc` to
`st'` and `sc'`: it reports no access issue, keeps each struct type's fields
made before it, and binds names only to symbols of the store. -/
structure Resolution.Declares (sc sc' : Scopes SymbolId) (st st' : Resolution) : Prop where
  quiet : st'.diagnostics.toList.filter (·.isAccess) = st.diagnostics.toList.filter (·.isAccess)
  known : st.FieldsKnown → st'.FieldsKnown
  below : sc.Below st.symbols.size → sc'.Below st'.symbols.size
  frames : sc.frames ≠ [] → sc'.frames ≠ []

namespace Resolution.Declares

variable {sc sc' sc'' : Scopes SymbolId} {st st' st'' : Resolution} {ds : List Diagnostic}

theorem refl (sc : Scopes SymbolId) (st : Resolution) : Declares sc sc st st :=
  ⟨rfl, id, id, id⟩

theorem trans (h : Declares sc sc' st st') (h' : Declares sc' sc'' st' st'') : Declares sc sc'' st st'' :=
  ⟨h'.quiet.trans h.quiet, h'.known ∘ h.known, h'.below ∘ h.below, h'.frames ∘ h.frames⟩

/-- The diagnostics a run of declarations adds hold no access issue. -/
theorem filter_eq_nil (h : Declares sc sc' st st') (he : st.Extends st' ds) :
    ds.filter (·.isAccess) = [] := by
  have hq := h.quiet
  rw [he.diagnostics, List.filter_append] at hq
  simpa using hq

end Resolution.Declares

theorem exec_bind_eq_ok {α β : Type} {x : Resolve α} {f : α → Resolve β} {b : β} {st st' : Resolution}
    (h : (x >>= f).exec st = (.ok b, st')) :
    ∃ a s, x.exec st = (.ok a, s) ∧ (f a).exec s = (.ok b, st') := by
  rw [exec_bind] at h
  split at h
  · next a s hx => exact ⟨a, s, hx, h⟩
  · cases h

theorem exec_liftScope {α : Type} {st : Resolution} (x : Except ScopeError α) :
    (liftScope x).exec st = match x with
      | .ok a => (.ok a, st)
      | .error e => (.error (.scope e), st) := by
  cases x <;> rfl

theorem exec_bindIdent_eq {st : Resolution} (i : Ident) (id : SymbolId) :
    (bindIdent i id).exec st = match i.sym with
      | none => (.ok { i with sym := some id }, st)
      | some _ => (.error (.rebound i.name i.span), st) := by
  unfold bindIdent
  cases i.sym <;> rfl

section Inversion

variable {ts sc sc' : Scopes SymbolId} {st st' : Resolution}

/-- No refusal of a declaration is an access issue. -/
theorem VarDecl.refusals_filter_isAccess {d : VarDecl} (o : Option SymbolId) (taken : Bool) :
    (d.refusals o taken).filter (·.isAccess) = [] := by
  cases htype : d.type <;> cases o <;> cases taken <;> simp [VarDecl.refusals, htype, accessIssues]

/-- A variable declaration, as accesses see it: refused, it changes no symbol and
reports no access issue; accepted, it makes one symbol, which is no struct type,
and declares its name to it in the innermost scope (`declareVar_exec`). -/
theorem declareVar_cases {d d' : VarDecl} (hd : d.Fresh) (hts : ts.frames ≠ []) (hsc : sc.frames ≠ [])
    (h : (declareVar ts sc d).exec st = (.ok (d', sc'), st')) :
    (sc' = sc ∧ st'.symbols = st.symbols ∧
      st'.diagnostics.toList.filter (·.isAccess) = st.diagnostics.toList.filter (·.isAccess)) ∨
    ∃ s, s.isStructDef = false ∧ st' = { st with symbols := st.symbols.push s } ∧
      sc.declare d.name.name ⟨st.symbols.size⟩ = .ok sc' := by
  obtain ⟨f, rest, hfr⟩ := List.exists_cons_of_ne_nil hsc
  rcases declareVar_exec st hd hts hfr with ⟨-, st₁, hx, hsym, hds⟩ | ⟨hnil, hx⟩
  · -- refused: only the refusals are reported, and none is an access issue
    rw [hx, Prod.mk.injEq, Except.ok.injEq, Prod.mk.injEq] at h
    obtain ⟨⟨-, rfl⟩, rfl⟩ := h
    refine .inl ⟨rfl, hsym, ?_⟩
    rw [hds, List.filter_append, VarDecl.refusals_filter_isAccess, List.append_nil]
  · -- accepted: one symbol, which is no struct type, and the name declared to it
    rw [hx, Prod.mk.injEq, Except.ok.injEq, Prod.mk.injEq] at h
    obtain ⟨⟨-, rfl⟩, rfl⟩ := h
    have hnone : f.find? d.name.name = none := by simpa using (VarDecl.refusals_eq_nil_iff.1 hnil).2.2
    exact .inr ⟨_, VarDecl.symbolWith_isStructDef _, rfl, Scopes.declare_cons hfr hnone _⟩

/-- An accepted declaration, made with a symbol that is no struct type, declares. -/
theorem Resolution.Declares.of_cases {x : String} (h : (sc' = sc ∧ st'.symbols = st.symbols ∧
      st'.diagnostics.toList.filter (·.isAccess) = st.diagnostics.toList.filter (·.isAccess)) ∨
    ∃ s, s.isStructDef = false ∧ st' = { st with symbols := st.symbols.push s } ∧
      sc.declare x ⟨st.symbols.size⟩ = .ok sc') : Resolution.Declares sc sc' st st' := by
  rcases h with ⟨rfl, hsym, hq⟩ | ⟨s, hs, rfl, hdecl⟩
  · exact ⟨hq, fun hk => hk.of_symbols_eq hsym, by rw [hsym]; exact id, id⟩
  · refine ⟨rfl, fun hk => hk.push hs, fun hb => ?_, fun _ => Scopes.frames_ne_nil_of_declare hdecl⟩
    simpa using hb.declare hdecl

/-- No refusal of a parameter is an access issue. -/
theorem Param.refusals_filter_isAccess {p : Param} (taken : Bool) :
    (p.refusals taken).filter (·.isAccess) = [] := by
  cases htype : p.type <;> cases taken <;> simp [Param.refusals, htype, accessIssues]

/-- A parameter, as accesses see it: refused, it changes no symbol and reports no
access issue; accepted, it makes one variable and declares its name to it in the
innermost scope (`declareParam_exec`). -/
theorem declareParam_cases {p p' : Param} {ty : Option String} (hp : p.Fresh) (hsc : sc.frames ≠ [])
    (h : (declareParam sc p).exec st = (.ok (p', ty, sc'), st')) :
    (sc' = sc ∧ st'.symbols = st.symbols ∧
      st'.diagnostics.toList.filter (·.isAccess) = st.diagnostics.toList.filter (·.isAccess)) ∨
    ∃ s, s.isStructDef = false ∧ st' = { st with symbols := st.symbols.push s } ∧
      sc.declare p.name.name ⟨st.symbols.size⟩ = .ok sc' := by
  obtain ⟨f, rest, hfr⟩ := List.exists_cons_of_ne_nil hsc
  rcases declareParam_exec st hp hfr with ⟨-, st₁, hx, hsym, hds⟩ | ⟨hnil, hx⟩
  · -- refused: only the refusals are reported, and none is an access issue
    simp only [hx, Prod.mk.injEq, Except.ok.injEq] at h
    obtain ⟨⟨-, -, rfl⟩, rfl⟩ := h
    refine .inl ⟨rfl, hsym, ?_⟩
    rw [hds, List.filter_append, Param.refusals_filter_isAccess, List.append_nil]
  · -- accepted: one variable, and the name declared to it
    simp only [hx, Prod.mk.injEq, Except.ok.injEq] at h
    obtain ⟨⟨-, -, rfl⟩, rfl⟩ := h
    have hnone : f.find? p.name.name = none := by simpa using (Param.refusals_eq_nil_iff.1 hnil).2
    exact .inr ⟨_, rfl, rfl, Scopes.declare_cons hfr hnone _⟩

/-- Variables declared one after another declare. -/
theorem declareVars_declares (ts? : Option (Scopes SymbolId)) (hts : ∀ ts ∈ ts?, ts.frames ≠ []) :
    ∀ (ds : List VarDecl) {sc sc' : Scopes SymbolId} {st st' : Resolution} {ds' : List VarDecl},
      (∀ d ∈ ds, d.Fresh) → sc.frames ≠ [] →
      (declareVars ts? ds sc).exec st = (.ok (ds', sc'), st') → Resolution.Declares sc sc' st st'
  | [], _, _, _, _, _, _, _, h => by
    simp [declareVars] at h
    obtain ⟨⟨-, rfl⟩, rfl⟩ := h
    exact .refl _ _
  | d :: ds, sc, sc', st, st', ds', hds, hsc, h => by
    simp only [List.mem_cons, forall_eq_or_imp] at hds
    have hts' : (ts?.getD sc).frames ≠ [] := by cases ts? <;> simp_all
    rw [declareVars] at h
    obtain ⟨⟨d1, sc1⟩, st1, h1, h2⟩ := exec_bind_eq_ok h
    obtain ⟨⟨ds2, sc2⟩, st2, h3, h4⟩ := exec_bind_eq_ok h2
    simp only [exec_pure, Prod.mk.injEq, Except.ok.injEq] at h4
    obtain ⟨⟨-, rfl⟩, rfl⟩ := h4
    have hd1 := Resolution.Declares.of_cases (declareVar_cases hds.1 hts' hsc h1)
    exact hd1.trans (declareVars_declares ts? hts ds hds.2 (hd1.frames hsc) h3)

/-- Parameters declared one after another declare. -/
theorem declareParams_declares :
    ∀ (ps : List Param) {sc sc' : Scopes SymbolId} {st st' : Resolution} {ps' : List Param}
      {tys : List String}, (∀ p ∈ ps, p.Fresh) → sc.frames ≠ [] →
      (declareParams ps sc).exec st = (.ok (ps', tys, sc'), st') → Resolution.Declares sc sc' st st'
  | [], _, _, _, _, _, _, _, _, h => by
    simp [declareParams] at h
    obtain ⟨⟨-, -, rfl⟩, rfl⟩ := h
    exact .refl _ _
  | p :: ps, sc, sc', st, st', ps', tys, hps, hsc, h => by
    simp only [List.mem_cons, forall_eq_or_imp] at hps
    rw [declareParams] at h
    obtain ⟨⟨p1, ty1, sc1⟩, st1, h1, h2⟩ := exec_bind_eq_ok h
    obtain ⟨⟨ps2, tys2, sc2⟩, st2, h3, h4⟩ := exec_bind_eq_ok h2
    simp only [exec_pure, Prod.mk.injEq, Except.ok.injEq] at h4
    obtain ⟨⟨-, -, rfl⟩, rfl⟩ := h4
    have hd1 := Resolution.Declares.of_cases (declareParam_cases hps.1 hsc h1)
    exact hd1.trans (declareParams_declares ps hps.2 (hd1.frames hsc) h3)

end Inversion

/-! ## Runs that trace their accesses -/

/-- The accesses `ls`, resolved in a run that ended in the store `st` and reported
`ds`: each is a chain as it should be in `st`, and the access issues of `ds` are
theirs. -/
def Traced (st : Resolution) (ls : List Loc) (ds : List Diagnostic) : Prop :=
  (∀ l ∈ ls, l.FailsOutward ∧ l.FieldsBound st.symbols) ∧ ReportsOf ls (ds.filter (·.isAccess))

section Traced

variable {st st' : Resolution} {l : Loc} {ls ls' : List Loc} {ds ds' : List Diagnostic}

theorem Loc.structOf_of_extends (he : st.Extends st' ds) {d : SymbolId}
    (h : l.structOf st.symbols = some d) : l.structOf st'.symbols = some d := by
  cases l with
  | var i =>
    simp only [Loc.structOf, Option.bind_eq_some_iff] at h ⊢
    obtain ⟨id, hid, s, hs, hd⟩ := h
    exact ⟨id, hid, s, he.symbol_eq hs, hd⟩
  | field => exact h

/-- What a chain is bound to stays in a store that extends the one it was resolved in. -/
theorem Loc.FieldsBound.of_extends (he : st.Extends st' ds) :
    ∀ {l : Loc}, l.FieldsBound st.symbols → l.FieldsBound st'.symbols
  | .var _, _ => trivial
  | .field _ _ _ _ _, ⟨hl, hb⟩ => by
    refine ⟨fun hf => ?_, Loc.FieldsBound.of_extends he hb⟩
    obtain ⟨d, fs, fid, s, hd, hfs, hlook, hs, hn, hr⟩ := hl hf
    exact ⟨d, fs, fid, s, Loc.structOf_of_extends he hd, he.symbol_eq hfs, hlook, he.symbol_eq hs, hn, hr⟩

/-- A run that resolved no access and reported no access issue. -/
theorem Traced.quiet (h : ds.filter (·.isAccess) = []) : Traced st [] ds :=
  ⟨by simp, by rw [h]; exact .nil⟩

/-- A run that resolved one access. -/
theorem Traced.access (hout : l.FailsOutward) (hb : l.FieldsBound st.symbols) (hr : l.Reports ds) :
    Traced st [l] ds :=
  ⟨by simp [hout, hb], by rw [hr.filter_isAccess]; exact hr.reportsOf⟩

/-- Accesses resolved one run after the other. -/
theorem Traced.append (h : Traced st ls ds) (he : st.Extends st' ds') (h' : Traced st' ls' ds') :
    Traced st' (ls ++ ls') (ds ++ ds') := by
  refine ⟨fun l hl => ?_, by rw [List.filter_append]; exact h.2.append h'.2⟩
  rcases List.mem_append.1 hl with hl | hl
  · exact ⟨(h.1 l hl).1, (h.1 l hl).2.of_extends he⟩
  · exact h'.1 l hl

end Traced

/-! ## Chains resolved -/

variable {st : Resolution} {scopes : Scopes SymbolId}

/-- A use of a name is bound, or reported undeclared at the name. -/
theorem resolveUse_reports {i : Ident} (hi : i.sym = none) (hsc : scopes.frames ≠ []) (hwf : st.WellFormed) :
    ∃ i' st' ds, (resolveUse scopes i).Ends st i' st' ds ∧ st'.symbols = st.symbols ∧
      (Loc.var i').Reports ds := by
  have hl := Scopes.lookup_of_ne_nil hsc i.name
  cases hf : Scopes.find? scopes.frames i.name with
  | some id =>
    refine ⟨{ i with sym := some id }, st, [], ⟨?_, .refl st, hwf⟩, rfl, by simp [Loc.Reports, Loc.errored]⟩
    simp [resolveUse, hl, hf, hi]
  | none =>
    refine ⟨i, _, _, ⟨?_, Resolution.extends_report st .undeclared i.span, hwf.report _ _⟩, rfl, ?_⟩
    · simp [resolveUse, hl, hf]
    · simp [Loc.Reports, Loc.errored, hi, Loc.names, accessIssues]

/-- The fields a settled base offers, exactly: none, silently after a base that
failed and with `E305` at the base's last name otherwise, or those of the struct
type the base has. -/
theorem fieldScope_exact {b : Loc} (hb : st.Settled b) (hwf : st.WellFormed) :
    ∃ o st' ds, (fieldScope b).Ends st o st' ds ∧ st'.symbols = st.symbols ∧
      (∀ fs, o = some fs → ds = [] ∧ b.errored = false ∧
        ∃ d, b.structOf st.symbols = some d ∧ st.symbols[d.index]? = some (.structDef fs)) ∧
      (o = none → ds = if b.errored then [] else [NameIssue.notAStruct.toDiagnostic b.lastName.span]) := by
  cases b with
  | var i =>
    cases hi : i.sym with
    | none =>
      exact ⟨none, st, [], ⟨by simp [fieldScope, hi], .refl st, hwf⟩, rfl, by simp, by simp [Loc.errored, hi]⟩
    | some id =>
      -- a name bound to anything but a struct variable is no struct
      have notStruct : (∀ t d, st.symbols[id.index]? ≠ some (.structVar t d)) →
          ∃ o st' ds, (fieldScope (.var i)).Ends st o st' ds ∧ st'.symbols = st.symbols ∧
            (∀ fs, o = some fs → ds = [] ∧ (Loc.var i).errored = false ∧
              ∃ d, (Loc.var i).structOf st.symbols = some d ∧ st.symbols[d.index]? = some (.structDef fs)) ∧
            (o = none → ds = if (Loc.var i).errored then [] else
              [NameIssue.notAStruct.toDiagnostic (Loc.var i).lastName.span]) := by
        intro hns
        refine ⟨none, _, _, ⟨?_, Resolution.extends_report st .notAStruct i.span, hwf.report _ _⟩, rfl,
          by simp, by simp [Loc.errored, hi, Loc.lastName]⟩
        cases hs : st.symbols[id.index]? with
        | none => simp [fieldScope, hi, hs]
        | some s => cases s <;> simp_all [fieldScope]
      cases hs : st.symbols[id.index]? with
      | none => exact notStruct (by simp [hs])
      | some s =>
        cases s with
        | structVar t d =>
          obtain ⟨fs, hfs⟩ := hwf.structVar _ t d hs
          refine ⟨some fs, st, [], ⟨by simp [fieldScope, hi, hs, exec_fieldsOf hfs], .refl st, hwf⟩, rfl,
            fun fs' h => ?_, by simp⟩
          cases h
          exact ⟨rfl, by simp [Loc.errored, hi], d, by simp [Loc.structOf, hi, hs, Symbol.record?], hfs⟩
        | _ => exact notStruct (by simp [hs])
  | field b0 n0 sp failed record =>
    obtain ⟨hfail, hrec⟩ := hb
    cases failed with
    | true => exact ⟨none, st, [], ⟨by simp [fieldScope], .refl st, hwf⟩, rfl, by simp, by simp [Loc.errored]⟩
    | false =>
      cases record with
      | none =>
        exact ⟨none, _, _, ⟨by simp [fieldScope], Resolution.extends_report st .notAStruct n0.span,
          hwf.report _ _⟩, rfl, by simp, by simp [Loc.errored, Loc.lastName]⟩
      | some d =>
        obtain ⟨fs, hfs⟩ := hrec d rfl
        refine ⟨some fs, st, [], ⟨by simp [fieldScope, exec_fieldsOf hfs], .refl st, hwf⟩, rfl,
          fun fs' h => ?_, by simp⟩
        cases h
        exact ⟨rfl, rfl, d, rfl, hfs⟩

/-- The struct type a field records: that of the field's symbol, when it is a
struct variable. -/
theorem exec_recordOf (hwf : st.WellFormed) (id : SymbolId) :
    (recordOf id).exec st = (.ok (st.symbols[id.index]?.bind Symbol.record?), st) := by
  cases hs : st.symbols[id.index]? with
  | none => simp [recordOf, hs]
  | some s =>
    cases s with
    | structVar t d =>
      obtain ⟨fs, hfs⟩ := hwf.structVar _ t d hs
      simp [recordOf, hs, exec_fieldsOf hfs, Symbol.record?]
    | _ => simp [recordOf, hs, Symbol.record?]

/-- What a field of a symbol records is a struct type of a well-formed store. -/
theorem Resolution.WellFormed.isStruct_record {st : Resolution} (hwf : st.WellFormed) {i : Nat} {s : Symbol}
    (hs : st.symbols[i]? = some s) : ∀ d ∈ s.record?, st.IsStruct d := by
  intro d hd
  cases s with
  | structVar t d' =>
    cases hd
    exact hwf.structVar i t _ hs
  | _ => cases hd

/-- **A chain resolves link by link.** Resolving a fresh location ends with what
its parent access reads of it settled; failure goes outward along it, each link
that did not fail is bound through its prefix's struct type, and it reports one
access issue at one of its names if it errored, none otherwise. -/
theorem resolveLoc_chain {l : Loc} (hl : l.Fresh) (hsc : scopes.frames ≠ []) (hwf : st.WellFormed)
    (hk : st.FieldsKnown) :
    ∃ l' st' ds, (resolveLoc scopes l).Ends st l' st' ds ∧ st'.symbols = st.symbols ∧ st'.Settled l' ∧
      l'.FailsOutward ∧ l'.FieldsBound st'.symbols ∧ l'.Reports ds := by
  induction l generalizing st with
  | var i =>
    obtain ⟨i', st', ds, he, hsym, hr⟩ := resolveUse_reports hl hsc hwf
    exact ⟨.var i', st', ds, he.of_exec (by simp [resolveLoc, he.exec_eq]), hsym, trivial,
      trivial, trivial, hr⟩
  | field b n sp failed record ih =>
    obtain ⟨hb, hn, rfl, rfl⟩ := hl
    obtain ⟨b', st1, ds1, e1, hsym1, hs1, hout1, hbound1, hr1⟩ := ih hb hwf hk
    obtain ⟨o, st2, ds2, e2, hsym2, hsome, hnone⟩ := fieldScope_exact hs1 e1.wellFormed
    have he12 := e1.extends_.trans e2.extends_
    have hbound2 : b'.FieldsBound st2.symbols := by rwa [hsym2]
    have hnames : ∀ i ∈ b'.names, i ∈ (Loc.field b' n sp true none).names := fun i hi => by
      simp [Loc.names, hi]
    cases o with
    | none =>
      -- the link fails: silently after a prefix that failed, with `E305` otherwise
      refine ⟨.field b' n sp true none, st2, ds1 ++ ds2, ⟨?_, he12, e2.wellFormed⟩, hsym2.trans hsym1,
        ⟨fun _ => hn, by simp⟩, ⟨fun _ => rfl, hout1⟩, ⟨by simp, hbound2⟩, hr1.extend hnames ?_ ?_⟩
      · simp [resolveLoc, e1.exec_eq, e2.exec_eq]
      · rw [hnone rfl, hr1.1]
        cases b'.errored <;> simp [Loc.errored]
      · intro d hd
        rw [hnone rfl] at hd
        cases herr : b'.errored <;> simp [herr] at hd
        exact ⟨b'.lastName, hnames _ b'.lastName_mem, .notAStruct, by simp [accessIssues], hd⟩
    | some fs =>
      -- the prefix did not fail, so it reported nothing
      obtain ⟨rfl, hok, d, hd, hfs⟩ := hsome fs rfl
      obtain rfl : ds1 = [] := List.eq_nil_of_length_eq_zero (by rw [hr1.1, hok]; rfl)
      have hfs2 : st2.symbols[d.index]? = some (.structDef fs) := by rwa [hsym2]
      have hlook := Scopes.lookup_of_ne_nil (e2.wellFormed.structDef _ fs hfs2) n.name
      cases hf : Scopes.find? fs.frames n.name with
      | none =>
        -- no such field: `E306` at the field's name
        refine ⟨.field b' n sp true none, _, [NameIssue.noSuchField.toDiagnostic n.span],
          ⟨?_, by simpa using he12.trans (Resolution.extends_report _ .noSuchField n.span),
            e2.wellFormed.report _ _⟩, by simp [hsym2, hsym1], ⟨fun _ => hn, by simp⟩, ⟨fun _ => rfl, hout1⟩,
          ⟨by simp, hbound2⟩, by simp [Loc.errored], ?_⟩
        · simp [resolveLoc, e1.exec_eq, e2.exec_eq, hlook, hf]
        · intro x hx
          rw [List.mem_singleton] at hx
          exact ⟨n, by simp [Loc.names], .noSuchField, by simp [accessIssues], hx⟩
      | some fid =>
        -- the field's symbol was made before its struct type, so it is in the store
        have hlt : fid.index < st2.symbols.size :=
          Nat.lt_trans (hk d.index fs (by rw [← hsym1]; exact hfs) n.name fid hf)
            (Array.getElem?_eq_some_iff.1 hfs2).1
        obtain ⟨s, hs⟩ : ∃ s, st2.symbols[fid.index]? = some s := ⟨_, Array.getElem?_eq_getElem hlt⟩
        refine ⟨.field b' { n with sym := some fid } sp false s.record?, st2, [],
          ⟨?_, by simpa using he12, e2.wellFormed⟩, hsym2.trans hsym1,
          ⟨by simp, e2.wellFormed.isStruct_record hs⟩, ⟨fun h => by simp [hok] at h, hout1⟩,
          ⟨fun _ => ⟨d, fs, fid, s, by rwa [hsym2], hfs2, by rw [hlook, hf], hs, rfl, rfl⟩, hbound2⟩,
          by simp [Loc.errored], by simp⟩
        cases hr : s.record? <;>
          simp [resolveLoc, e1.exec_eq, e2.exec_eq, hlook, hf, hn, exec_recordOf e2.wellFormed, hs, hr]

/-! ## Expressions and statements -/

mutual

/-- A fresh expression resolves its accesses, in order, without adding a symbol. -/
theorem resolveExpr_traced : ∀ (e : Expr) {st : Resolution}, e.Fresh → scopes.frames ≠ [] →
    st.WellFormed → st.FieldsKnown →
    ∃ e' st' ds, (resolveExpr scopes e).Ends st e' st' ds ∧ st'.symbols = st.symbols ∧ Traced st' e'.accesses ds
  | .int n sp, st, _, _, hwf, _ =>
    ⟨.int n sp, st, [], ⟨by simp [resolveExpr], .refl st, hwf⟩, rfl, .quiet rfl⟩
  | .str t sp, st, _, _, hwf, _ =>
    ⟨.str t sp, st, [], ⟨by simp [resolveExpr], .refl st, hwf⟩, rfl, .quiet rfl⟩
  | .bool b sp, st, _, _, hwf, _ =>
    ⟨.bool b sp, st, [], ⟨by simp [resolveExpr], .refl st, hwf⟩, rfl, .quiet rfl⟩
  | .loc l, _, he, hsc, hwf, hk => by
    obtain ⟨l', st', ds, e1, hsym, -, hout, hb, hr⟩ := resolveLoc_chain he hsc hwf hk
    exact ⟨.loc l', st', ds, e1.of_exec (by simp [resolveExpr, e1.exec_eq]), hsym,
      .access hout hb hr⟩
  | .assign t v sp, _, ⟨ht, hv⟩, hsc, hwf, hk => by
    obtain ⟨t', st1, ds1, e1, hsym1, -, hout, hb, hr⟩ := resolveLoc_chain ht hsc hwf hk
    obtain ⟨v', st2, ds2, e2, hsym2, htr⟩ :=
      resolveExpr_traced v hv hsc e1.wellFormed (hk.of_symbols_eq hsym1)
    exact ⟨.assign t' v' sp, st2, ds1 ++ ds2,
      e1.of_exec₂ e2 (by simp [resolveExpr, e1.exec_eq, e2.exec_eq]),
      hsym2.trans hsym1, (Traced.access hout hb hr).append e2.extends_ htr⟩
  | .call c args sp, _, ⟨hc, hargs⟩, hsc, hwf, hk => by
    obtain ⟨c', st1, ds1, e1, hsym1, hr⟩ := resolveUse_reports hc hsc hwf
    obtain ⟨args', st2, ds2, e2, hsym2, htr⟩ :=
      resolveExprs_traced args hargs hsc e1.wellFormed (hk.of_symbols_eq hsym1)
    exact ⟨.call c' args' sp, st2, ds1 ++ ds2,
      e1.of_exec₂ e2 (by simp [resolveExpr, e1.exec_eq, e2.exec_eq]),
      hsym2.trans hsym1, (Traced.access (l := .var c') trivial trivial hr).append e2.extends_ htr⟩
  | .unary op e sp, _, he, hsc, hwf, hk => by
    obtain ⟨e', st', ds, e1, hsym, htr⟩ := resolveExpr_traced e he hsc hwf hk
    exact ⟨.unary op e' sp, st', ds, e1.of_exec (by simp [resolveExpr, e1.exec_eq]),
      hsym, htr⟩
  | .binary l op r sp, _, ⟨hl, hr⟩, hsc, hwf, hk => by
    obtain ⟨l', st1, ds1, e1, hsym1, htr1⟩ := resolveExpr_traced l hl hsc hwf hk
    obtain ⟨r', st2, ds2, e2, hsym2, htr2⟩ :=
      resolveExpr_traced r hr hsc e1.wellFormed (hk.of_symbols_eq hsym1)
    exact ⟨.binary l' op r' sp, st2, ds1 ++ ds2,
      e1.of_exec₂ e2 (by simp [resolveExpr, e1.exec_eq, e2.exec_eq]),
      hsym2.trans hsym1, htr1.append e2.extends_ htr2⟩

theorem resolveExprs_traced : ∀ (es : List Expr) {st : Resolution}, Expr.AllFresh es →
    scopes.frames ≠ [] → st.WellFormed → st.FieldsKnown →
    ∃ es' st' ds, (resolveExprs scopes es).Ends st es' st' ds ∧ st'.symbols = st.symbols ∧
      Traced st' (Expr.accessesOf es') ds
  | [], st, _, _, hwf, _ => ⟨[], st, [], ⟨by simp [resolveExprs], .refl st, hwf⟩, rfl, .quiet rfl⟩
  | e :: es, _, ⟨he, hes⟩, hsc, hwf, hk => by
    obtain ⟨e', st1, ds1, e1, hsym1, htr1⟩ := resolveExpr_traced e he hsc hwf hk
    obtain ⟨es', st2, ds2, e2, hsym2, htr2⟩ :=
      resolveExprs_traced es hes hsc e1.wellFormed (hk.of_symbols_eq hsym1)
    exact ⟨e' :: es', st2, ds1 ++ ds2,
      e1.of_exec₂ e2 (by simp [resolveExprs, e1.exec_eq, e2.exec_eq]),
      hsym2.trans hsym1, htr1.append e2.extends_ htr2⟩

end

/-- A block's declarations resolve no access and report no access issue; its
statements resolve theirs. -/
theorem resolveBlock_traced (scopes : Scopes SymbolId) {ds : List VarDecl} {ss : List Stmt}
    (hds : ∀ d ∈ ds, d.Fresh)
    (hss : ∀ {inner : Scopes SymbolId} {st : Resolution}, inner.frames ≠ [] → st.WellFormed →
      st.FieldsKnown → ∃ ss' st' diags, (resolveStmts inner ss).Ends st ss' st' diags ∧ st'.FieldsKnown ∧
        Traced st' (Stmt.accessesOf ss') diags)
    (hwf : st.WellFormed) (hk : st.FieldsKnown) :
    ∃ ds' ss' st' diags, (resolveBlock scopes ds ss).Ends st (ds', ss') st' diags ∧ st'.FieldsKnown ∧
      Traced st' (Stmt.accessesOf ss') diags := by
  have hpush : scopes.push.frames ≠ [] := by simp [Scopes.push]
  obtain ⟨ds', inner, st1, diags1, e1, ha1, -⟩ := declareVars_spec none (by simp) ds hds hpush hwf
  have hd1 := declareVars_declares none (by simp) ds hds hpush e1.exec_eq
  obtain ⟨ss', st2, diags2, e2, hk2, htr⟩ := hss ha1.ne_nil e1.wellFormed (hd1.known hk)
  exact ⟨ds', ss', st2, diags1 ++ diags2,
    ⟨by simp [resolveBlock, e1.exec_eq, e2.exec_eq, ha1.pop_push], e1.extends_.trans e2.extends_,
      e2.wellFormed⟩, hk2, (Traced.quiet (hd1.filter_eq_nil e1.extends_)).append e2.extends_ htr⟩

mutual

/-- A fresh statement resolves its accesses, in order, and keeps each struct type's
fields made before it. -/
theorem resolveStmt_traced : ∀ (s : Stmt) {scopes : Scopes SymbolId} {st : Resolution}, s.Fresh →
    scopes.frames ≠ [] → st.WellFormed → st.FieldsKnown →
    ∃ s' st' ds, (resolveStmt scopes s).Ends st s' st' ds ∧ st'.FieldsKnown ∧ Traced st' s'.accesses ds
  | .assign t v as sp, _, _, ⟨ht, hv⟩, hsc, hwf, hk => by
    obtain ⟨t', st1, ds1, e1, hsym1, -, hout, hb, hr⟩ := resolveLoc_chain ht hsc hwf hk
    obtain ⟨v', st2, ds2, e2, hsym2, htr⟩ :=
      resolveExpr_traced v hv hsc e1.wellFormed (hk.of_symbols_eq hsym1)
    exact ⟨.assign t' v' as sp, st2, ds1 ++ ds2,
      e1.of_exec₂ e2 (by simp [resolveStmt, e1.exec_eq, e2.exec_eq]),
      hk.of_symbols_eq (hsym2.trans hsym1), (Traced.access hout hb hr).append e2.extends_ htr⟩
  | .increment t sp, _, _, ht, hsc, hwf, hk => by
    obtain ⟨t', st', ds, e1, hsym, -, hout, hb, hr⟩ := resolveLoc_chain ht hsc hwf hk
    exact ⟨.increment t' sp, st', ds, e1.of_exec (by simp [resolveStmt, e1.exec_eq]),
      hk.of_symbols_eq hsym, .access hout hb hr⟩
  | .decrement t sp, _, _, ht, hsc, hwf, hk => by
    obtain ⟨t', st', ds, e1, hsym, -, hout, hb, hr⟩ := resolveLoc_chain ht hsc hwf hk
    exact ⟨.decrement t' sp, st', ds, e1.of_exec (by simp [resolveStmt, e1.exec_eq]),
      hk.of_symbols_eq hsym, .access hout hb hr⟩
  | .read t sp, _, _, ht, hsc, hwf, hk => by
    obtain ⟨t', st', ds, e1, hsym, -, hout, hb, hr⟩ := resolveLoc_chain ht hsc hwf hk
    exact ⟨.read t' sp, st', ds, e1.of_exec (by simp [resolveStmt, e1.exec_eq]),
      hk.of_symbols_eq hsym, .access hout hb hr⟩
  | .write v sp, _, _, hv, hsc, hwf, hk => by
    obtain ⟨v', st', ds, e1, hsym, htr⟩ := resolveExpr_traced v hv hsc hwf hk
    exact ⟨.write v' sp, st', ds, e1.of_exec (by simp [resolveStmt, e1.exec_eq]),
      hk.of_symbols_eq hsym, htr⟩
  | .ret (some v) sp, _, _, hv, hsc, hwf, hk => by
    obtain ⟨v', st', ds, e1, hsym, htr⟩ := resolveExpr_traced v hv hsc hwf hk
    exact ⟨.ret (some v') sp, st', ds, e1.of_exec (by simp [resolveStmt, e1.exec_eq]),
      hk.of_symbols_eq hsym, htr⟩
  | .ret none sp, _, st, _, _, hwf, hk =>
    ⟨.ret none sp, st, [], ⟨by simp [resolveStmt], .refl st, hwf⟩, hk, .quiet rfl⟩
  | .ifThen c ds ss sp, sc, _, ⟨hc, hds, hss⟩, hsc, hwf, hk => by
    obtain ⟨c', st1, ds1, e1, hsym1, htr1⟩ := resolveExpr_traced c hc hsc hwf hk
    obtain ⟨ds', ss', st2, ds2, e2, hk2, htr2⟩ := resolveBlock_traced sc hds
      (fun hi hw hk => resolveStmts_traced ss hss hi hw hk) e1.wellFormed (hk.of_symbols_eq hsym1)
    exact ⟨.ifThen c' ds' ss' sp, st2, ds1 ++ ds2,
      e1.of_exec₂ e2 (by simp [resolveStmt, e1.exec_eq, e2.exec_eq]),
      hk2, htr1.append e2.extends_ htr2⟩
  | .whileLoop c ds ss sp, sc, _, ⟨hc, hds, hss⟩, hsc, hwf, hk => by
    obtain ⟨c', st1, ds1, e1, hsym1, htr1⟩ := resolveExpr_traced c hc hsc hwf hk
    obtain ⟨ds', ss', st2, ds2, e2, hk2, htr2⟩ := resolveBlock_traced sc hds
      (fun hi hw hk => resolveStmts_traced ss hss hi hw hk) e1.wellFormed (hk.of_symbols_eq hsym1)
    exact ⟨.whileLoop c' ds' ss' sp, st2, ds1 ++ ds2,
      e1.of_exec₂ e2 (by simp [resolveStmt, e1.exec_eq, e2.exec_eq]),
      hk2, htr1.append e2.extends_ htr2⟩
  | .repeatLoop c ds ss sp, sc, _, ⟨hc, hds, hss⟩, hsc, hwf, hk => by
    obtain ⟨c', st1, ds1, e1, hsym1, htr1⟩ := resolveExpr_traced c hc hsc hwf hk
    obtain ⟨ds', ss', st2, ds2, e2, hk2, htr2⟩ := resolveBlock_traced sc hds
      (fun hi hw hk => resolveStmts_traced ss hss hi hw hk) e1.wellFormed (hk.of_symbols_eq hsym1)
    exact ⟨.repeatLoop c' ds' ss' sp, st2, ds1 ++ ds2,
      e1.of_exec₂ e2 (by simp [resolveStmt, e1.exec_eq, e2.exec_eq]),
      hk2, htr1.append e2.extends_ htr2⟩
  | .ifThenElse c ds ss eds ess sp, sc, _, ⟨hc, hds, hss, heds, hess⟩, hsc, hwf, hk => by
    obtain ⟨c', st1, ds1, e1, hsym1, htr1⟩ := resolveExpr_traced c hc hsc hwf hk
    obtain ⟨ds', ss', st2, ds2, e2, hk2, htr2⟩ := resolveBlock_traced sc hds
      (fun hi hw hk => resolveStmts_traced ss hss hi hw hk) e1.wellFormed (hk.of_symbols_eq hsym1)
    obtain ⟨eds', ess', st3, ds3, e3, hk3, htr3⟩ := resolveBlock_traced sc heds
      (fun hi hw hk => resolveStmts_traced ess hess hi hw hk) e2.wellFormed hk2
    exact ⟨.ifThenElse c' ds' ss' eds' ess' sp, st3, ds1 ++ ds2 ++ ds3,
      ⟨by simp [resolveStmt, e1.exec_eq, e2.exec_eq, e3.exec_eq],
        (e1.extends_.trans e2.extends_).trans e3.extends_, e3.wellFormed⟩,
      hk3, (htr1.append e2.extends_ htr2).append e3.extends_ htr3⟩
  | .call c args as sp, _, _, ⟨hc, hargs⟩, hsc, hwf, hk => by
    obtain ⟨c', st1, ds1, e1, hsym1, hr⟩ := resolveUse_reports hc hsc hwf
    obtain ⟨args', st2, ds2, e2, hsym2, htr⟩ :=
      resolveExprs_traced args hargs hsc e1.wellFormed (hk.of_symbols_eq hsym1)
    exact ⟨.call c' args' as sp, st2, ds1 ++ ds2,
      e1.of_exec₂ e2 (by simp [resolveStmt, e1.exec_eq, e2.exec_eq]),
      hk.of_symbols_eq (hsym2.trans hsym1), (Traced.access (l := .var c') trivial trivial hr).append e2.extends_ htr⟩

theorem resolveStmts_traced : ∀ (ss : List Stmt) {scopes : Scopes SymbolId} {st : Resolution},
    Stmt.AllFresh ss → scopes.frames ≠ [] → st.WellFormed → st.FieldsKnown →
    ∃ ss' st' ds, (resolveStmts scopes ss).Ends st ss' st' ds ∧ st'.FieldsKnown ∧
      Traced st' (Stmt.accessesOf ss') ds
  | [], _, st, _, _, hwf, hk => ⟨[], st, [], ⟨by simp [resolveStmts], .refl st, hwf⟩, hk, .quiet rfl⟩
  | s :: ss, _, _, ⟨hs, hss⟩, hsc, hwf, hk => by
    obtain ⟨s', st1, ds1, e1, hk1, htr1⟩ := resolveStmt_traced s hs hsc hwf hk
    obtain ⟨ss', st2, ds2, e2, hk2, htr2⟩ := resolveStmts_traced ss hss hsc e1.wellFormed hk1
    exact ⟨s' :: ss', st2, ds1 ++ ds2,
      e1.of_exec₂ e2 (by simp [resolveStmts, e1.exec_eq, e2.exec_eq]),
      hk2, htr1.append e2.extends_ htr2⟩

end

/-! ## Declarations and programs -/

/-- A fresh function resolves the accesses of its body, and keeps each struct
type's fields made before it; its parameters and locals report no access issue. -/
theorem declareFn_traced {f : FnDecl} (hf : f.Fresh) (hsc : scopes.frames ≠ []) (hwf : st.WellFormed)
    (hk : st.FieldsKnown) :
    ∃ f' sc' st' ds, (declareFn scopes f).Ends st (f', sc') st' ds ∧ scopes.Amends sc' ∧
      st'.FieldsKnown ∧ Traced st' (Stmt.accessesOf f'.body) ds := by
  obtain ⟨-, hn, hps, hds, hbody⟩ := hf
  obtain ⟨fr, rest, hfr⟩ := List.exists_cons_of_ne_nil hsc
  have hloc := Scopes.lookupLocal_cons hfr f.name.name
  cases hfn : fr.find? f.name.name with
  | some _ =>
    -- `E301`: the function makes no symbol, but its inside is resolved all the same
    have hpush : scopes.push.frames ≠ [] := by simp [Scopes.push]
    obtain ⟨ps', tys, in1, st2, ds2, e2, ha2, -⟩ := declareParams_spec f.params hps hpush
      (hwf.report .multiplyDeclared f.name.span)
    have hd2 := declareParams_declares f.params hps hpush e2.exec_eq
    obtain ⟨dc', in2, st3, ds3, e3, ha3, -⟩ :=
      declareVars_spec none (by simp) f.decls hds ha2.ne_nil e2.wellFormed
    have hd3 := declareVars_declares none (by simp) f.decls hds ha2.ne_nil e3.exec_eq
    obtain ⟨body', st4, ds4, e4, hk4, htr⟩ := resolveStmts_traced f.body hbody ha3.ne_nil e3.wellFormed
      (hd3.known (hd2.known (hk.of_symbols_eq rfl)))
    have hquiet : ([NameIssue.multiplyDeclared.toDiagnostic f.name.span] ++ ds2 ++ ds3).filter (·.isAccess) = [] := by
      simp [hd2.filter_eq_nil e2.extends_, hd3.filter_eq_nil e3.extends_, accessIssues]
    refine ⟨{ f with params := ps', decls := dc', body := body' }, scopes, st4,
      [NameIssue.multiplyDeclared.toDiagnostic f.name.span] ++ ds2 ++ ds3 ++ ds4,
      ⟨?_, ?_, e4.wellFormed⟩, .refl hsc, hk4, (Traced.quiet hquiet).append e4.extends_ htr⟩
    · simp [declareFn, hloc, hfn, e2.exec_eq, e3.exec_eq, e4.exec_eq, (ha2.trans ha3).pop_push]
    · exact (((Resolution.extends_report _ _ _).trans e2.extends_).trans e3.extends_).trans e4.extends_
  | none =>
    -- the function's symbol is made before its parameters, which are then recorded in it
    have hpush : (Scopes.push ⟨fr.add f.name.name ⟨st.symbols.size⟩ :: rest⟩).frames ≠ [] := by
      simp [Scopes.push]
    obtain ⟨ps', tys, in1, st2, ds2, e2, ha2, -⟩ := declareParams_spec f.params hps hpush
      (hwf.push (s := .function f.result.name none) trivial)
    have hd2 := declareParams_declares f.params hps hpush e2.exec_eq
    have hrec : st2.symbols[(⟨st.symbols.size⟩ : SymbolId).index]? = some (.function f.result.name none) := by
      rw [e2.extends_.keeps _ (by simp)]
      simp
    have hwf2 := e2.wellFormed.setFunction hrec (.function f.result.name (some tys)) ⟨_, _, rfl⟩
    have hk2 : Resolution.FieldsKnown
        { st2 with symbols := (st2.symbols.setIfInBounds st.symbols.size (.function f.result.name (some tys))) } :=
      (hd2.known (hk.push (s := .function f.result.name none) rfl)).setFunction hrec
    obtain ⟨dc', in2, st3, ds3, e3, ha3, -⟩ := declareVars_spec none (by simp) f.decls hds ha2.ne_nil hwf2
    have hd3 := declareVars_declares none (by simp) f.decls hds ha2.ne_nil e3.exec_eq
    obtain ⟨body', st4, ds4, e4, hk4, htr⟩ :=
      resolveStmts_traced f.body hbody ha3.ne_nil e3.wellFormed (hd3.known hk2)
    have hquiet : (ds2 ++ ds3).filter (·.isAccess) = [] := by
      simp [hd2.filter_eq_nil e2.extends_, hd3.filter_eq_nil e3.extends_]
    let name' := { f.name with sym := some ⟨st.symbols.size⟩ }
    refine ⟨{ f with name := name', params := ps', decls := dc', body := body' },
      ⟨fr.add f.name.name ⟨st.symbols.size⟩ :: rest⟩, st4, ds2 ++ ds3 ++ ds4,
      ⟨?_, ?_, e4.wellFormed⟩, ⟨fr, _, rest, hfr, rfl⟩, hk4, (Traced.quiet hquiet).append e4.extends_ htr⟩
    · simp [declareFn, hloc, hfn, Scopes.declare_cons hfr hfn, exec_bindIdent hn, e2.exec_eq,
        exec_recordParams hrec, e3.exec_eq, e4.exec_eq, (ha2.trans ha3).pop_push, name']
    · have h2 := (Resolution.extends_push st _).trans e2.extends_
      exact ((h2.setIfInBounds (Nat.le_refl _) _).trans e3.extends_).trans e4.extends_

/-- A fresh struct declaration resolves no access and reports no access issue; the
struct type it makes holds in its fields only the symbols its fields made. -/
theorem declareStruct_traced {d : StructDecl} (hd : d.Fresh) (hsc : scopes.frames ≠ [])
    (hwf : st.WellFormed) (hk : st.FieldsKnown) :
    ∃ d' sc' st' ds, (declareStruct scopes d).Ends st (d', sc') st' ds ∧ scopes.Amends sc' ∧
      st'.FieldsKnown ∧ ds.filter (·.isAccess) = [] := by
  obtain ⟨hn, hfs⟩ := hd
  obtain ⟨fr, rest, hfr⟩ := List.exists_cons_of_ne_nil hsc
  have hloc := Scopes.lookupLocal_cons hfr d.name.name
  have hinit : (Scopes.initial : Scopes SymbolId).frames ≠ [] := by simp [Scopes.initial]
  have hts : ∀ ts ∈ some scopes, ts.frames ≠ [] := by simpa using hsc
  cases hfn : fr.find? d.name.name with
  | some _ =>
    -- `E301`: the struct makes no symbol, but its fields are resolved all the same
    obtain ⟨fs', fsc, st2, ds2, e2, -, -⟩ := declareVars_spec (some scopes) hts d.fields hfs hinit
      (hwf.report .multiplyDeclared d.name.span)
    have hd2 := declareVars_declares (some scopes) hts d.fields hfs hinit e2.exec_eq
    refine ⟨{ d with fields := fs' }, scopes, st2, [NameIssue.multiplyDeclared.toDiagnostic d.name.span] ++ ds2,
      ⟨?_, (Resolution.extends_report _ _ _).trans e2.extends_, e2.wellFormed⟩, .refl hsc,
      hd2.known (hk.of_symbols_eq rfl), by simp [hd2.filter_eq_nil e2.extends_, accessIssues]⟩
    simp [declareStruct, hloc, hfn, e2.exec_eq]
  | none =>
    obtain ⟨fs', fsc, st2, ds2, e2, ha2, -⟩ := declareVars_spec (some scopes) hts d.fields hfs hinit hwf
    have hd2 := declareVars_declares (some scopes) hts d.fields hfs hinit e2.exec_eq
    -- the fields' symbols were made before the struct type's
    have hk2 := (hd2.known hk).push_structDef (hd2.below (Scopes.below_initial _))
    refine ⟨{ d with name := { d.name with sym := some ⟨st2.symbols.size⟩ }, fields := fs' },
      ⟨fr.add d.name.name ⟨st2.symbols.size⟩ :: rest⟩, _, ds2 ++ [],
      ⟨?_, e2.extends_.trans (Resolution.extends_push _ _), e2.wellFormed.push (s := .structDef fsc) ha2.ne_nil⟩,
      ⟨fr, _, rest, hfr, rfl⟩, hk2,
      by simp [hd2.filter_eq_nil e2.extends_]⟩
    simp [declareStruct, hloc, hfn, e2.exec_eq, Scopes.declare_cons hfr hfn, exec_bindIdent hn]

/-- A fresh declaration resolves the accesses of its body, if a function. -/
theorem declareDecl_traced {d : Decl} (hd : d.Fresh) (hsc : scopes.frames ≠ []) (hwf : st.WellFormed)
    (hk : st.FieldsKnown) :
    ∃ d' sc' st' ds, (declareDecl scopes d).Ends st (d', sc') st' ds ∧ scopes.Amends sc' ∧
      st'.FieldsKnown ∧ Traced st' d'.accesses ds := by
  cases d with
  | var d =>
    obtain ⟨d', sc', st', ds, e, ha, -⟩ := declareVar_spec hd hsc hsc hwf
    have hd' := Resolution.Declares.of_cases (declareVar_cases hd hsc hsc e.exec_eq)
    exact ⟨.var d', sc', st', ds, e.of_exec (by simp [declareDecl, e.exec_eq]), ha,
      hd'.known hk, .quiet (hd'.filter_eq_nil e.extends_)⟩
  | fn f =>
    obtain ⟨f', sc', st', ds, e, ha, hk', htr⟩ := declareFn_traced hd hsc hwf hk
    exact ⟨.fn f', sc', st', ds, e.of_exec (by simp [declareDecl, e.exec_eq]), ha, hk', htr⟩
  | struct d =>
    obtain ⟨d', sc', st', ds, e, ha, hk', hq⟩ := declareStruct_traced hd hsc hwf hk
    exact ⟨.struct d', sc', st', ds, e.of_exec (by simp [declareDecl, e.exec_eq]), ha, hk',
      .quiet hq⟩

/-- Top-level declarations resolve the accesses of their functions, in order. -/
theorem declareDecls_traced :
    ∀ (ds : List Decl) {scopes : Scopes SymbolId} {st : Resolution}, (∀ d ∈ ds, d.Fresh) →
      scopes.frames ≠ [] → st.WellFormed → st.FieldsKnown →
      ∃ ds' sc' st' diags, (declareDecls ds scopes).Ends st (ds', sc') st' diags ∧
        Traced st' (ds'.flatMap Decl.accesses) diags
  | [], scopes, st, _, _, hwf, _ =>
    ⟨[], scopes, st, [], ⟨by simp [declareDecls], .refl st, hwf⟩, .quiet rfl⟩
  | d :: ds, _, _, hds, hsc, hwf, hk => by
    simp only [List.mem_cons, forall_eq_or_imp] at hds
    obtain ⟨d', sc1, st1, diags1, e1, ha1, hk1, htr1⟩ := declareDecl_traced hds.1 hsc hwf hk
    obtain ⟨ds', sc2, st2, diags2, e2, htr2⟩ := declareDecls_traced ds hds.2 ha1.ne_nil e1.wellFormed hk1
    exact ⟨d' :: ds', sc2, st2, diags1 ++ diags2,
      e1.of_exec₂ e2 (by simp [declareDecls, e1.exec_eq, e2.exec_eq]),
      by simpa using htr1.append e2.extends_ htr2⟩

/-- The empty store has no struct type. -/
theorem Resolution.fieldsKnown_empty : Resolution.FieldsKnown {} := fun _ _ h => by simp at h

/-- **What resolution reports at each access.** Resolving a fresh program ends, and
each of its accesses is a chain as it should be in the final store: failure goes
outward along it, and each link that did not fail is bound through its prefix's
struct type. The access issues it reports (`E302`, `E305`, `E306`) are those of
its accesses, one after another, each access's own: one at one of its names if it
errored, none if it did not. -/
theorem Program.resolve_accesses {p : Program} (hp : p.Fresh) :
    ∃ r, p.resolve = .ok r ∧ (∀ l ∈ r.program.accesses, l.FailsOutward ∧ l.FieldsBound r.symbols) ∧
      ReportsOf r.program.accesses (r.diagnostics.filter (·.isAccess)) := by
  obtain ⟨ds', sc, st', diags, e, htr⟩ := declareDecls_traced p.decls hp
    (show (Scopes.initial : Scopes SymbolId).frames ≠ [] by simp [Scopes.initial])
    Resolution.wellFormed_empty Resolution.fieldsKnown_empty
  have hx : (declareDecls p.decls Scopes.initial).run.run {} = (.ok (ds', sc), st') := e.exec_eq
  refine ⟨⟨{ p with decls := ds' }, st'.symbols, st'.diagnostics.toList, sc⟩, by simp [Program.resolve, hx], ?_⟩
  -- resolution starts with no diagnostics, so those of the store are the run's
  have hdiag : st'.diagnostics.toList = diags := by simpa using e.extends_.diagnostics
  show Traced st' (ds'.flatMap Decl.accesses) st'.diagnostics.toList
  rw [hdiag]
  exact htr

end EggFront
