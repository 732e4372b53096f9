import EggFront.Proofs.Binding.Runs
import EggFront.Syntax.Names

/-!
# Resolution never faults, and reports exactly what it leaves unbound

Resolving a program the parser built ends without a fault, and leaves one scope
on the stack (`Program.resolve_total`): every operation it asks of a scope stack
is one the stack grants, every name and field access it annotates is annotated
for the first time, and the function whose parameter types it records was made
without them just before. A block or a function opens a scope and closes it
again, and what the scope's declarations did stays inside it
(`Scopes.Amends.pop_push`).

It reports nothing exactly when it binds every name of the program
(`Program.resolve_reports_iff_unbound`): each of the six diagnostics leaves a name
unbound (a refused declaration its name or struct type, `E302` the name used,
`E305` and `E306` the field accessed), and a name is left unbound only with a
diagnostic: a field access whose base already failed adds none, but the base
failed with one.

## The proof

One lemma per resolution function, by structural recursion over the syntax,
runs the function symbolically from a well-formed store (`Resolve.Ends`): it
ends without a fault in a well-formed store that extends the first by some
diagnostics, and those are empty exactly when every name of the result is bound.
What a declaration of a variable or a parameter can do is said once, for every
analysis of it (`declareVar_exec`, `declareParam_exec`): refused, with its
refusals reported and nothing else changed, or accepted, with its symbol made
and its name declared in the innermost scope.
A location also says what its parent access reads of it (`Loc.Settled`), and a
declaration which scope it changed (`Scopes.Amends`).
-/

namespace EggFront

open Resolve

/-! ## Names bound -/

/-- Every name of the list is bound to a symbol. -/
def AllBound (is : List Ident) : Prop := ∀ i ∈ is, i.sym.isSome

@[simp] theorem allBound_nil : AllBound [] := by simp [AllBound]

@[simp] theorem allBound_cons {i : Ident} {is : List Ident} :
    AllBound (i :: is) ↔ i.sym.isSome ∧ AllBound is := by
  simp [AllBound]

@[simp] theorem allBound_append {is js : List Ident} :
    AllBound (is ++ js) ↔ AllBound is ∧ AllBound js := by
  simp only [AllBound, List.mem_append]
  exact ⟨fun h => ⟨fun i hi => h i (.inl hi), fun i hi => h i (.inr hi)⟩,
    fun ⟨h, h'⟩ i hi => hi.elim (h i) (h' i)⟩

/-- Reports of two parts are empty exactly when both parts are bound. -/
theorem nil_append_iff_allBound {ds ds' : List Diagnostic} {is js : List Ident}
    (h : ds = [] ↔ AllBound is) (h' : ds' = [] ↔ AllBound js) :
    ds ++ ds' = [] ↔ AllBound (is ++ js) := by
  rw [List.append_eq_nil_iff, h, h', allBound_append]

/-- A base that reported, or has an unbound name, has reports. -/
theorem append_ne_nil_of_unbound {ds ds' : List Diagnostic} {is : List Ident}
    (h : ds = [] ↔ AllBound is) (h' : ds' ≠ [] ∨ ¬ AllBound is) : ds ++ ds' ≠ [] := by
  intro hnil
  obtain ⟨h1, h2⟩ := List.append_eq_nil_iff.1 hnil
  exact h'.elim (· h2) (· (h.1 h1))

/-! ## Runs that end -/

namespace Resolve

variable {α : Type}

/-- `x` run from `st` ends without a fault in `a` and the well-formed store `st'`,
which extends `st` by the diagnostics `ds`. -/
structure Ends (x : Resolve α) (st : Resolution) (a : α) (st' : Resolution)
    (ds : List Diagnostic) : Prop where
  exec_eq : x.exec st = (.ok a, st')
  extends_ : st.Extends st' ds
  wellFormed : st'.WellFormed

/-- A run that only reports. -/
theorem Ends.of_reports {st : Resolution} {x : Resolve α} {a : α} {st' : Resolution} (ds : List Diagnostic)
    (hx : x.exec st = (.ok a, st')) (hsym : st'.symbols = st.symbols)
    (hds : st'.diagnostics.toList = st.diagnostics.toList ++ ds) (hwf : st.WellFormed) :
    x.Ends st a st' ds :=
  ⟨hx, Resolution.extends_of_symbols_eq hsym hds, hwf.of_symbols_eq hsym⟩

theorem Ends.pure {st : Resolution} (hwf : st.WellFormed) (a : α) : (pure a : Resolve α).Ends st a st [] :=
  ⟨rfl, .refl st, hwf⟩

/-- A run whose outcome is that of a run that ends, answered differently, ends
where that one does. -/
theorem Ends.of_exec {β : Type} {x : Resolve α} {y : Resolve β} {st st' : Resolution} {a : α} {b : β}
    {ds : List Diagnostic} (h : x.Ends st a st' ds) (hy : y.exec st = (.ok b, st')) :
    y.Ends st b st' ds :=
  ⟨hy, h.extends_, h.wellFormed⟩

/-- A run whose outcome is that of two runs that end, the second from where the
first ended, ends where the second does. -/
theorem Ends.of_exec₂ {β γ : Type} {x : Resolve α} {y : Resolve β} {z : Resolve γ}
    {st st₁ st₂ : Resolution} {a : α} {b : β} {c : γ} {ds₁ ds₂ : List Diagnostic}
    (h : x.Ends st a st₁ ds₁) (h' : y.Ends st₁ b st₂ ds₂) (hz : z.exec st = (.ok c, st₂)) :
    z.Ends st c st₂ (ds₁ ++ ds₂) :=
  ⟨hz, h.extends_.trans h'.extends_, h'.wellFormed⟩

/-- Runs that end chain: the second starts where the first ended. -/
theorem Ends.bind {β : Type} {x : Resolve α} {f : α → Resolve β} {st st₁ st₂ : Resolution} {a : α} {b : β}
    {ds₁ ds₂ : List Diagnostic} (h : x.Ends st a st₁ ds₁) (h' : (f a).Ends st₁ b st₂ ds₂) :
    (x >>= f).Ends st b st₂ (ds₁ ++ ds₂) :=
  h.of_exec₂ h' (by simp [h.exec_eq, h'.exec_eq])

end Resolve

/-! ## Scopes changed only inside -/

namespace Scopes

variable {α : Type} {s s' s'' : Scopes α}

/-- `s'` differs from `s` at most in its innermost scope. -/
def Amends (s s' : Scopes α) : Prop :=
  ∃ f f' rest, s.frames = f :: rest ∧ s'.frames = f' :: rest

theorem Amends.refl (h : s.frames ≠ []) : s.Amends s := by
  obtain ⟨f, rest, hs⟩ := List.exists_cons_of_ne_nil h
  exact ⟨f, f, rest, hs, hs⟩

theorem Amends.trans (h : s.Amends s') (h' : s'.Amends s'') : s.Amends s'' := by
  obtain ⟨f, f', rest, hs, hs'⟩ := h
  obtain ⟨g, g', rest', hg, hg'⟩ := h'
  rw [hs'] at hg
  cases hg
  exact ⟨f, g', rest, hs, hg'⟩

theorem Amends.ne_nil (h : s.Amends s') : s'.frames ≠ [] := by
  obtain ⟨_, _, _, _, hs'⟩ := h
  simp [hs']

theorem Amends.depth_eq (h : s.Amends s') : s'.depth = s.depth := by
  obtain ⟨_, _, _, hs, hs'⟩ := h
  simp [depth, hs, hs']

/-- Closing a scope that was opened on `s` gives `s` back, whatever was declared in it. -/
theorem Amends.pop_push (h : s.push.Amends s') : s'.pop = .ok s := by
  obtain ⟨f, f', rest, hs, hs'⟩ := h
  simp only [push, List.cons.injEq] at hs
  rw [pop_cons hs', ← hs.2]

end Scopes

/-! ## Locations -/

namespace Resolution

/-- What the access above a resolved location reads of it: a failed access has its
field unbound, and a struct type it records is a struct type of the store. -/
def Settled (st : Resolution) : Loc → Prop
  | .var _ => True
  | .field _ n _ failed record => (failed = true → n.sym = none) ∧ ∀ d ∈ record, st.IsStruct d

theorem Settled.of_extends {st st' : Resolution} {ds : List Diagnostic} {l : Loc}
    (h : st.Settled l) (he : st.Extends st' ds) : st'.Settled l := by
  cases l with
  | var => trivial
  | field b n sp failed record => exact ⟨h.1, fun d hd => (h.2 d hd).of_extends he⟩

end Resolution

variable {st : Resolution} {scopes : Scopes SymbolId}

/-- A use of a name is bound to the innermost visible declaration, or reported. -/
theorem resolveUse_spec {i : Ident} (hi : i.sym = none) (hsc : scopes.frames ≠ [])
    (hwf : st.WellFormed) :
    ∃ i' st' ds, (resolveUse scopes i).Ends st i' st' ds ∧ i'.name = i.name ∧
      (ds = [] ↔ i'.sym.isSome) := by
  have hl := Scopes.lookup_of_ne_nil hsc i.name
  cases hf : Scopes.find? scopes.frames i.name with
  | some id =>
    refine ⟨{ i with sym := some id }, st, [], ⟨?_, .refl st, hwf⟩, rfl, by simp⟩
    simp [resolveUse, hl, hf, hi]
  | none =>
    refine ⟨i, _, _, ⟨?_, Resolution.extends_report st .undeclared i.span, hwf.report _ _⟩, rfl,
      by simp [hi]⟩
    simp [resolveUse, hl, hf]

/-- The struct type a field names, when it is a struct variable. -/
theorem recordOf_spec (hwf : st.WellFormed) (id : SymbolId) :
    ∃ o, (recordOf id).exec st = (.ok o, st) ∧ ∀ d ∈ o, st.IsStruct d := by
  cases hs : st.symbols[id.index]? with
  | none => exact ⟨none, by simp [recordOf, hs], by simp⟩
  | some s =>
    cases s with
    | structVar t d =>
      obtain ⟨fs, hfs⟩ := hwf.structVar _ t d hs
      exact ⟨some d, by simp [recordOf, hs, exec_fieldsOf hfs], fun d' hd' => by cases hd'; exact ⟨fs, hfs⟩⟩
    | _ => exact ⟨none, by simp [recordOf, hs], by simp⟩

/-- The fields a settled base offers: none, silently only when the base has an
unbound name, or a scope of fields. -/
theorem fieldScope_spec {b : Loc} (hb : st.Settled b) (hwf : st.WellFormed) :
    ∃ o st' ds, (fieldScope b).Ends st o st' ds ∧ (o = none → ds ≠ [] ∨ ¬ AllBound b.names) ∧
      ∀ fs, o = some fs → ds = [] ∧ fs.frames ≠ [] := by
  cases b with
  | var i =>
    cases hi : i.sym with
    | none =>
      refine ⟨none, st, [], ⟨by simp [fieldScope, hi], .refl st, hwf⟩, fun _ => .inr ?_, by simp⟩
      simp [Loc.names, hi]
    | some id =>
      -- a base that is not a struct variable is reported
      have reported : st.symbols[id.index]? = none ∨
          (∃ s, st.symbols[id.index]? = some s ∧ ∀ t d, s ≠ .structVar t d) →
          ∃ o st' ds, (fieldScope (.var i)).Ends st o st' ds ∧
            (o = none → ds ≠ [] ∨ ¬ AllBound (Loc.var i).names) ∧
            ∀ fs, o = some fs → ds = [] ∧ fs.frames ≠ [] := by
        intro hns
        refine ⟨none, _, _, ⟨?_, Resolution.extends_report st .notAStruct i.span, hwf.report _ _⟩,
          fun _ => .inl (by simp), by simp⟩
        rcases hns with hs | ⟨s, hs, hnv⟩
        · simp [fieldScope, hi, hs]
        · cases s <;> simp_all [fieldScope]
      cases hs : st.symbols[id.index]? with
      | none => exact reported (.inl hs)
      | some s =>
        cases s with
        | structVar t d =>
          obtain ⟨fs, hfs⟩ := hwf.structVar _ t d hs
          exact ⟨some fs, st, [], ⟨by simp [fieldScope, hi, hs, exec_fieldsOf hfs], .refl st, hwf⟩,
            by simp, fun fs' h => by cases h; exact ⟨rfl, hwf.structDef _ fs hfs⟩⟩
        | _ => exact reported (.inr ⟨_, hs, by simp⟩)
  | field b0 n0 sp failed record =>
    obtain ⟨hfail, hrec⟩ := hb
    cases failed with
    | true =>
      refine ⟨none, st, [], ⟨by simp [fieldScope], .refl st, hwf⟩, fun _ => .inr ?_, by simp⟩
      simp [Loc.names, hfail rfl]
    | false =>
      cases record with
      | none =>
        exact ⟨none, _, _, ⟨by simp [fieldScope], Resolution.extends_report st .notAStruct n0.span,
          hwf.report _ _⟩, fun _ => .inl (by simp), by simp⟩
      | some d =>
        obtain ⟨fs, hfs⟩ := hrec d rfl
        exact ⟨some fs, st, [], ⟨by simp [fieldScope, exec_fieldsOf hfs], .refl st, hwf⟩,
          by simp, fun fs' h => by cases h; exact ⟨rfl, hwf.structDef _ fs hfs⟩⟩

/-- **A fresh location resolves**, and what its parent access reads of it is
settled; it reports nothing exactly when all its names are bound. -/
theorem resolveLoc_spec {l : Loc} (hl : l.Fresh) (hsc : scopes.frames ≠ []) (hwf : st.WellFormed) :
    ∃ l' st' ds, (resolveLoc scopes l).Ends st l' st' ds ∧ st'.Settled l' ∧
      (ds = [] ↔ AllBound l'.names) := by
  induction l generalizing st with
  | var i =>
    obtain ⟨i', st', ds, he, -, hb⟩ := resolveUse_spec hl hsc hwf
    exact ⟨.var i', st', ds, he.of_exec (by simp [resolveLoc, he.exec_eq]),
      trivial, by simpa [Loc.names] using hb⟩
  | field b n sp failed record ih =>
    obtain ⟨hb, hn, rfl, rfl⟩ := hl
    obtain ⟨b', st1, ds1, e1, hs1, hb1⟩ := ih hb hwf
    obtain ⟨o, st2, ds2, e2, hnone, hsome⟩ := fieldScope_spec hs1 e1.wellFormed
    have he12 := e1.extends_.trans e2.extends_
    cases o with
    | none =>
      -- the field stays unbound, and the base or the access reported
      refine ⟨.field b' n sp true none, st2, ds1 ++ ds2, ⟨?_, he12, e2.wellFormed⟩,
        ⟨fun _ => hn, by simp⟩, iff_of_false (append_ne_nil_of_unbound hb1 (hnone rfl)) ?_⟩
      · simp [resolveLoc, e1.exec_eq, e2.exec_eq]
      · simp [Loc.names, hn]
    | some fs =>
      obtain ⟨rfl, hfs⟩ := hsome fs rfl
      have hlook := Scopes.lookup_of_ne_nil hfs n.name
      cases hf : Scopes.find? fs.frames n.name with
      | none =>
        refine ⟨.field b' n sp true none, _, ds1 ++ [] ++ [NameIssue.noSuchField.toDiagnostic n.span],
          ⟨?_, he12.trans (Resolution.extends_report _ _ _), e2.wellFormed.report _ _⟩,
          ⟨fun _ => hn, by simp⟩, iff_of_false (by simp) (by simp [Loc.names, hn])⟩
        simp [resolveLoc, e1.exec_eq, e2.exec_eq, hlook, hf]
      | some fid =>
        obtain ⟨o', ho', hrec⟩ := recordOf_spec e2.wellFormed fid
        have hbound : ds1 ++ [] = [] ↔ AllBound (Loc.field b' { n with sym := some fid } sp false o').names := by
          simpa [Loc.names] using hb1
        refine ⟨.field b' { n with sym := some fid } sp false o', st2, ds1 ++ [],
          ⟨?_, he12, e2.wellFormed⟩, ⟨by simp, hrec⟩, hbound⟩
        cases o' <;> simp [resolveLoc, e1.exec_eq, e2.exec_eq, hlook, hf, hn, ho']

/-! ## Expressions -/

mutual

/-- A fresh expression resolves, and reports nothing exactly when it binds all its names. -/
theorem resolveExpr_spec : ∀ (e : Expr) {st : Resolution}, e.Fresh → scopes.frames ≠ [] →
    st.WellFormed → ∃ e' st' ds, (resolveExpr scopes e).Ends st e' st' ds ∧ (ds = [] ↔ AllBound e'.names)
  | .int n sp, st, _, _, hwf => ⟨.int n sp, st, [], ⟨by simp [resolveExpr], .refl st, hwf⟩, by simp [Expr.names]⟩
  | .str t sp, st, _, _, hwf => ⟨.str t sp, st, [], ⟨by simp [resolveExpr], .refl st, hwf⟩, by simp [Expr.names]⟩
  | .bool b sp, st, _, _, hwf =>
    ⟨.bool b sp, st, [], ⟨by simp [resolveExpr], .refl st, hwf⟩, by simp [Expr.names]⟩
  | .loc l, _, he, hsc, hwf => by
    obtain ⟨l', st', ds, e1, -, hb⟩ := resolveLoc_spec he hsc hwf
    exact ⟨.loc l', st', ds, e1.of_exec (by simp [resolveExpr, e1.exec_eq]),
      by simpa [Expr.names] using hb⟩
  | .assign t v sp, _, ⟨ht, hv⟩, hsc, hwf => by
    obtain ⟨t', st1, ds1, e1, -, hb1⟩ := resolveLoc_spec ht hsc hwf
    obtain ⟨v', st2, ds2, e2, hb2⟩ := resolveExpr_spec v hv hsc e1.wellFormed
    exact ⟨.assign t' v' sp, st2, ds1 ++ ds2,
      e1.of_exec₂ e2 (by simp [resolveExpr, e1.exec_eq, e2.exec_eq]),
      by simpa [Expr.names] using nil_append_iff_allBound hb1 hb2⟩
  | .call c args sp, _, ⟨hc, hargs⟩, hsc, hwf => by
    obtain ⟨c', st1, ds1, e1, -, hb1⟩ := resolveUse_spec hc hsc hwf
    obtain ⟨args', st2, ds2, e2, hb2⟩ := resolveExprs_spec args hargs hsc e1.wellFormed
    have hc' : ds1 = [] ↔ AllBound [c'] := by simpa using hb1
    exact ⟨.call c' args' sp, st2, ds1 ++ ds2,
      e1.of_exec₂ e2 (by simp [resolveExpr, e1.exec_eq, e2.exec_eq]),
      by simpa [Expr.names] using nil_append_iff_allBound hc' hb2⟩
  | .unary op e sp, _, he, hsc, hwf => by
    obtain ⟨e', st', ds, e1, hb⟩ := resolveExpr_spec e he hsc hwf
    exact ⟨.unary op e' sp, st', ds, e1.of_exec (by simp [resolveExpr, e1.exec_eq]),
      by simpa [Expr.names] using hb⟩
  | .binary l op r sp, _, ⟨hl, hr⟩, hsc, hwf => by
    obtain ⟨l', st1, ds1, e1, hb1⟩ := resolveExpr_spec l hl hsc hwf
    obtain ⟨r', st2, ds2, e2, hb2⟩ := resolveExpr_spec r hr hsc e1.wellFormed
    exact ⟨.binary l' op r' sp, st2, ds1 ++ ds2,
      e1.of_exec₂ e2 (by simp [resolveExpr, e1.exec_eq, e2.exec_eq]),
      by simpa [Expr.names] using nil_append_iff_allBound hb1 hb2⟩

theorem resolveExprs_spec : ∀ (es : List Expr) {st : Resolution}, Expr.AllFresh es →
    scopes.frames ≠ [] → st.WellFormed →
    ∃ es' st' ds, (resolveExprs scopes es).Ends st es' st' ds ∧ (ds = [] ↔ AllBound (Expr.namesOf es'))
  | [], st, _, _, hwf => ⟨[], st, [], ⟨by simp [resolveExprs], .refl st, hwf⟩, by simp [Expr.namesOf]⟩
  | e :: es, _, ⟨he, hes⟩, hsc, hwf => by
    obtain ⟨e', st1, ds1, e1, hb1⟩ := resolveExpr_spec e he hsc hwf
    obtain ⟨es', st2, ds2, e2, hb2⟩ := resolveExprs_spec es hes hsc e1.wellFormed
    exact ⟨e' :: es', st2, ds1 ++ ds2,
      e1.of_exec₂ e2 (by simp [resolveExprs, e1.exec_eq, e2.exec_eq]),
      by simpa [Expr.namesOf] using nil_append_iff_allBound hb1 hb2⟩

end

/-! ## Declarations -/

/-! ### What a variable declaration does -/

theorem Ident.with_sym_none {i : Ident} (hi : i.sym = none) : { i with sym := none } = i := by
  cases i
  simp_all

namespace VarDecl

variable {d : VarDecl} {o : Option SymbolId} {taken : Bool}

/-- The struct type that a declaration's struct name reads as in `ts`: the symbol
the name is declared to, when the store holds a struct type there. -/
def structIn (d : VarDecl) (ts : Scopes SymbolId) (st : Resolution) : Option SymbolId :=
  match d.type with
  | .struct n _ =>
    match Scopes.find? ts.frames n.name with
    | some id =>
      match st.symbols[id.index]? with
      | some (.structDef _) => some id
      | _ => none
    | none => none
  | _ => none

/-- The declaration's type with its struct name, if it has one, bound to `o`. -/
def typeWith (d : VarDecl) (o : Option SymbolId) : TypeExpr :=
  match d.type with
  | .struct n sp => .struct { n with sym := o } sp
  | t => t

/-- What refuses a declaration, in the order it is reported: `E303` at the name
of a `void` variable, `E304` at a struct name that reads as no struct type, and
`E301` at a name that the innermost scope already has. -/
def refusals (d : VarDecl) (o : Option SymbolId) (taken : Bool) : List Diagnostic :=
  (match d.type with
    | .void _ => [NameIssue.voidVariable.toDiagnostic d.name.span]
    | .struct n _ => if o.isNone then [NameIssue.notAStructType.toDiagnostic n.span] else []
    | _ => []) ++
  (if taken then [NameIssue.multiplyDeclared.toDiagnostic d.name.span] else [])

/-- The symbol an accepted declaration makes: a struct variable of the struct type
`o`, or a variable of its type. -/
def symbolWith (d : VarDecl) : Option SymbolId → Symbol
  | some defn => .structVar d.type.name defn
  | none => .var d.type.name

/-- Nothing refuses a declaration exactly when it is no `void` variable, its
struct name reads as a struct type, and its name is free. -/
theorem refusals_eq_nil_iff : d.refusals o taken = [] ↔
    (∀ sp, d.type ≠ .void sp) ∧ (∀ n sp, d.type = .struct n sp → o.isSome) ∧ taken = false := by
  cases htype : d.type <;> cases o <;> cases taken <;> simp [refusals, htype]

/-- The symbol of a declaration whose struct type is read in the store fits it. -/
theorem fits_symbolWith (ts : Scopes SymbolId) (st : Resolution) :
    st.Fits (d.symbolWith (d.structIn ts st)) := by
  unfold structIn
  split
  · split
    · split
      · rename_i h
        exact ⟨_, h⟩
      · trivial
    · trivial
  · trivial

/-- A struct name bound to a struct type leaves no name of the type unbound. -/
theorem allBound_typeWith (h : ∀ n sp, d.type = .struct n sp → o.isSome) :
    AllBound (d.typeWith o).names := by
  unfold typeWith
  split
  · rename_i n sp htype
    simpa [TypeExpr.names] using h n sp htype
  · simp [TypeExpr.names]

end VarDecl

section

variable {ts : Scopes SymbolId} {f : Frame SymbolId} {rest : List (Frame SymbolId)} {d : VarDecl}

/-- **What a variable declaration does.** Its struct name, if it has one, is bound
to the struct type it reads as. Then either something refuses the declaration,
which is reported and changes nothing else, or nothing does, and the declaration
makes its symbol, declares its name to it in the innermost scope and binds the
name. -/
theorem declareVar_exec (st : Resolution) (hd : d.Fresh) (hts : ts.frames ≠ []) (hsc : scopes.frames = f :: rest) :
    (d.refusals (d.structIn ts st) (f.find? d.name.name).isSome ≠ [] ∧ ∃ st',
      (declareVar ts scopes d).exec st = (.ok ({ d with type := d.typeWith (d.structIn ts st) }, scopes), st') ∧
      st'.symbols = st.symbols ∧
      st'.diagnostics.toList = st.diagnostics.toList ++ d.refusals (d.structIn ts st) (f.find? d.name.name).isSome) ∨
    (d.refusals (d.structIn ts st) (f.find? d.name.name).isSome = [] ∧
      (declareVar ts scopes d).exec st =
        (.ok ({ d with type := d.typeWith (d.structIn ts st), name := { d.name with sym := some ⟨st.symbols.size⟩ } },
            ⟨f.add d.name.name ⟨st.symbols.size⟩ :: rest⟩),
          { st with symbols := st.symbols.push (d.symbolWith (d.structIn ts st)) })) := by
  have hloc := Scopes.lookupLocal_cons hsc d.name.name
  have htl := Scopes.lookup_of_ne_nil hts
  obtain ⟨ht, hn⟩ := hd
  cases htype : d.type with
  | void sp =>
    cases hf : f.find? d.name.name <;>
      simp [declareVar, VarDecl.refusals, VarDecl.structIn, VarDecl.typeWith, htype, hloc, hf]
  | int sp =>
    cases hf : f.find? d.name.name <;>
      simp [declareVar, VarDecl.refusals, VarDecl.structIn, VarDecl.typeWith, VarDecl.symbolWith, htype, hloc, hf,
        Scopes.declare_cons hsc, exec_bindIdent hn]
  | bool sp =>
    cases hf : f.find? d.name.name <;>
      simp [declareVar, VarDecl.refusals, VarDecl.structIn, VarDecl.typeWith, VarDecl.symbolWith, htype, hloc, hf,
        Scopes.declare_cons hsc, exec_bindIdent hn]
  | struct n sp =>
    simp only [TypeExpr.Fresh, htype] at ht
    -- the struct name reads as nothing, as a symbol that is no struct type, or as a struct type
    cases hS : Scopes.find? ts.frames n.name with
    | none =>
      cases hf : f.find? d.name.name <;>
        simp [declareVar, VarDecl.refusals, VarDecl.structIn, VarDecl.typeWith, htype, hloc, htl, hS, hf,
          Ident.with_sym_none ht]
    | some id =>
      cases hs : st.symbols[id.index]? with
      | none =>
        cases hf : f.find? d.name.name <;>
          simp [declareVar, VarDecl.refusals, VarDecl.structIn, VarDecl.typeWith, htype, hloc, htl, hS, hs, hf,
            Ident.with_sym_none ht]
      | some s =>
        cases s with
        | structDef fs =>
          cases hf : f.find? d.name.name <;>
            simp [declareVar, VarDecl.refusals, VarDecl.structIn, VarDecl.typeWith, VarDecl.symbolWith,
              TypeExpr.name, htype, hloc, htl, hS, hs, hf, Scopes.declare_cons hsc, exec_bindIdent hn,
              exec_bindIdent ht]
        | _ =>
          cases hf : f.find? d.name.name <;>
            simp [declareVar, VarDecl.refusals, VarDecl.structIn, VarDecl.typeWith, htype, hloc, htl, hS, hs, hf,
              Ident.with_sym_none ht]

/-- A fresh variable declaration resolves and changes only the innermost scope; it
reports nothing exactly when its name, and its struct type, are bound. -/
theorem declareVar_spec (hd : d.Fresh) (hts : ts.frames ≠ []) (hsc : scopes.frames ≠ [])
    (hwf : st.WellFormed) :
    ∃ d' sc' st' ds, (declareVar ts scopes d).Ends st (d', sc') st' ds ∧ scopes.Amends sc' ∧
      (ds = [] ↔ AllBound d'.names) := by
  obtain ⟨f, rest, hfr⟩ := List.exists_cons_of_ne_nil hsc
  rcases declareVar_exec st hd hts hfr with ⟨hne, st', hx, hsym, hds⟩ | ⟨hnil, hx⟩
  · -- refused: the reports are there, and the name is left unbound
    exact ⟨_, _, _, _, .of_reports _ hx hsym hds hwf, .refl hsc,
      iff_of_false hne (by simp [VarDecl.names, hd.2])⟩
  · -- accepted: the name is bound, and a struct name to the struct type it reads as
    obtain ⟨-, hstruct, -⟩ := VarDecl.refusals_eq_nil_iff.1 hnil
    exact ⟨_, _, _, [], ⟨hx, Resolution.extends_push _ _, hwf.push (VarDecl.fits_symbolWith ts st)⟩,
      ⟨f, _, rest, hfr, rfl⟩, by simp [VarDecl.names, VarDecl.allBound_typeWith hstruct]⟩

end

/-- Variables declared one after another. -/
theorem declareVars_spec (ts? : Option (Scopes SymbolId)) (hts : ∀ ts ∈ ts?, ts.frames ≠ []) :
    ∀ (ds : List VarDecl) {scopes : Scopes SymbolId} {st : Resolution}, (∀ d ∈ ds, d.Fresh) →
      scopes.frames ≠ [] → st.WellFormed →
      ∃ ds' sc' st' diags, (declareVars ts? ds scopes).Ends st (ds', sc') st' diags ∧
        scopes.Amends sc' ∧ (diags = [] ↔ AllBound (ds'.flatMap VarDecl.names))
  | [], scopes, st, _, hsc, hwf =>
    ⟨[], scopes, st, [], ⟨by simp [declareVars], .refl st, hwf⟩, .refl hsc, by simp⟩
  | d :: ds, scopes, st, hds, hsc, hwf => by
    simp only [List.mem_cons, forall_eq_or_imp] at hds
    -- struct types are looked up in the given scopes, or in the ones declared into
    have hts' : (ts?.getD scopes).frames ≠ [] := by cases ts? <;> simp_all
    obtain ⟨d', sc1, st1, diags1, e1, ha1, hb1⟩ := declareVar_spec hds.1 hts' hsc hwf
    obtain ⟨ds', sc2, st2, diags2, e2, ha2, hb2⟩ := declareVars_spec ts? hts ds hds.2 ha1.ne_nil e1.wellFormed
    exact ⟨d' :: ds', sc2, st2, diags1 ++ diags2,
      e1.of_exec₂ e2 (by simp [declareVars, e1.exec_eq, e2.exec_eq]),
      ha1.trans ha2, by simpa using nil_append_iff_allBound hb1 hb2⟩

/-! ### What a parameter does -/

/-- What refuses a parameter, in the order it is reported: `E303` at the name of
a `void` parameter, and `E301` at a name that an earlier parameter has. -/
def Param.refusals (p : Param) (taken : Bool) : List Diagnostic :=
  (match p.type with
    | .void _ => [NameIssue.voidVariable.toDiagnostic p.name.span]
    | _ => []) ++
  (if taken then [NameIssue.multiplyDeclared.toDiagnostic p.name.span] else [])

/-- Nothing refuses a parameter exactly when it is not `void` and its name is free. -/
theorem Param.refusals_eq_nil_iff {p : Param} {taken : Bool} :
    p.refusals taken = [] ↔ (∀ sp, p.type ≠ .void sp) ∧ taken = false := by
  cases htype : p.type <;> cases taken <;> simp [refusals, htype]

section

variable {f : Frame SymbolId} {rest : List (Frame SymbolId)} {p : Param}

/-- **What a parameter does.** Either something refuses it, which is reported and
changes nothing else, or nothing does, and the parameter makes a variable of its
type, declares its name to it in the innermost scope and binds the name. -/
theorem declareParam_exec (st : Resolution) (hp : p.Fresh) (hsc : scopes.frames = f :: rest) :
    (p.refusals (f.find? p.name.name).isSome ≠ [] ∧ ∃ st',
      (declareParam scopes p).exec st = (.ok (p, none, scopes), st') ∧ st'.symbols = st.symbols ∧
      st'.diagnostics.toList = st.diagnostics.toList ++ p.refusals (f.find? p.name.name).isSome) ∨
    (p.refusals (f.find? p.name.name).isSome = [] ∧
      (declareParam scopes p).exec st =
        (.ok ({ p with name := { p.name with sym := some ⟨st.symbols.size⟩ } }, some p.type.name,
            ⟨f.add p.name.name ⟨st.symbols.size⟩ :: rest⟩),
          { st with symbols := st.symbols.push (.var p.type.name) })) := by
  have hloc := Scopes.lookupLocal_cons hsc p.name.name
  obtain ⟨ht, hn⟩ := hp
  cases htype : p.type with
  | struct n sp => simp [htype, TypeExpr.IsBase] at ht
  | void sp => cases hf : f.find? p.name.name <;> simp [declareParam, Param.refusals, htype, hloc, hf]
  | int sp =>
    cases hf : f.find? p.name.name <;>
      simp [declareParam, Param.refusals, htype, hloc, hf, Scopes.declare_cons hsc, exec_bindIdent hn]
  | bool sp =>
    cases hf : f.find? p.name.name <;>
      simp [declareParam, Param.refusals, htype, hloc, hf, Scopes.declare_cons hsc, exec_bindIdent hn]

/-- A fresh parameter resolves and changes only the innermost scope; it reports
nothing exactly when its name is bound. -/
theorem declareParam_spec (hp : p.Fresh) (hsc : scopes.frames ≠ []) (hwf : st.WellFormed) :
    ∃ p' ty sc' st' ds, (declareParam scopes p).Ends st (p', ty, sc') st' ds ∧ scopes.Amends sc' ∧
      (ds = [] ↔ AllBound p'.names) := by
  obtain ⟨f, rest, hfr⟩ := List.exists_cons_of_ne_nil hsc
  have hnames : p.type.names = [] := by
    have hb := hp.1
    cases htype : p.type <;> simp_all [TypeExpr.IsBase, TypeExpr.names]
  rcases declareParam_exec st hp hfr with ⟨hne, st', hx, hsym, hds⟩ | ⟨-, hx⟩
  · -- refused: the reports are there, and the name is left unbound
    exact ⟨_, _, _, _, _, .of_reports _ hx hsym hds hwf, .refl hsc,
      iff_of_false hne (by simp [Param.names, hp.2])⟩
  · -- accepted: the name is bound
    exact ⟨_, _, _, _, [], ⟨hx, Resolution.extends_push _ _, hwf.push trivial⟩, ⟨f, _, rest, hfr, rfl⟩,
      by simp [Param.names, hnames]⟩

end

/-- Parameters declared one after another. -/
theorem declareParams_spec :
    ∀ (ps : List Param) {scopes : Scopes SymbolId} {st : Resolution}, (∀ p ∈ ps, p.Fresh) →
      scopes.frames ≠ [] → st.WellFormed →
      ∃ ps' tys sc' st' ds, (declareParams ps scopes).Ends st (ps', tys, sc') st' ds ∧
        scopes.Amends sc' ∧ (ds = [] ↔ AllBound (ps'.flatMap Param.names))
  | [], scopes, st, _, hsc, hwf =>
    ⟨[], [], scopes, st, [], ⟨by simp [declareParams], .refl st, hwf⟩, .refl hsc, by simp⟩
  | p :: ps, scopes, st, hps, hsc, hwf => by
    simp only [List.mem_cons, forall_eq_or_imp] at hps
    obtain ⟨p', ty, sc1, st1, ds1, e1, ha1, hb1⟩ := declareParam_spec hps.1 hsc hwf
    obtain ⟨ps', tys, sc2, st2, ds2, e2, ha2, hb2⟩ := declareParams_spec ps hps.2 ha1.ne_nil e1.wellFormed
    exact ⟨p' :: ps', ty.toList ++ tys, sc2, st2, ds1 ++ ds2,
      e1.of_exec₂ e2 (by simp [declareParams, e1.exec_eq, e2.exec_eq]),
      ha1.trans ha2, by simpa using nil_append_iff_allBound hb1 hb2⟩

/-! ## Statements -/

/-- A block opens a scope, declares into it, resolves its statements there, and
closes it again, whatever its statements are, as long as they resolve. -/
theorem resolveBlock_spec {ds : List VarDecl} {ss : List Stmt} (hds : ∀ d ∈ ds, d.Fresh)
    (hss : ∀ {inner : Scopes SymbolId} {st : Resolution}, inner.frames ≠ [] → st.WellFormed →
      ∃ ss' st' diags, (resolveStmts inner ss).Ends st ss' st' diags ∧
        (diags = [] ↔ AllBound (Stmt.namesOf ss')))
    (hwf : st.WellFormed) :
    ∃ ds' ss' st' diags, (resolveBlock scopes ds ss).Ends st (ds', ss') st' diags ∧
      (diags = [] ↔ AllBound (ds'.flatMap VarDecl.names ++ Stmt.namesOf ss')) := by
  obtain ⟨ds', inner, st1, diags1, e1, ha1, hb1⟩ :=
    declareVars_spec none (by simp) ds hds (show scopes.push.frames ≠ [] by simp [Scopes.push]) hwf
  obtain ⟨ss', st2, diags2, e2, hb2⟩ := hss ha1.ne_nil e1.wellFormed
  exact ⟨ds', ss', st2, diags1 ++ diags2,
    ⟨by simp [resolveBlock, e1.exec_eq, e2.exec_eq, ha1.pop_push], e1.extends_.trans e2.extends_,
      e2.wellFormed⟩, nil_append_iff_allBound hb1 hb2⟩

mutual

/-- A fresh statement resolves, and reports nothing exactly when it binds all its names. -/
theorem resolveStmt_spec : ∀ (s : Stmt) {scopes : Scopes SymbolId} {st : Resolution}, s.Fresh →
    scopes.frames ≠ [] → st.WellFormed →
    ∃ s' st' ds, (resolveStmt scopes s).Ends st s' st' ds ∧ (ds = [] ↔ AllBound s'.names)
  | .assign t v _ _, _, _, ⟨ht, hv⟩, hsc, hwf => by
    obtain ⟨t', st1, ds1, e1, -, hb1⟩ := resolveLoc_spec ht hsc hwf
    obtain ⟨v', st2, ds2, e2, hb2⟩ := resolveExpr_spec v hv hsc e1.wellFormed
    exact ⟨_, _, _, by rw [resolveStmt]; exact e1.bind (e2.bind (.pure e2.wellFormed _)),
      by simpa [Stmt.names] using nil_append_iff_allBound hb1 hb2⟩
  | .increment t _, _, _, ht, hsc, hwf | .decrement t _, _, _, ht, hsc, hwf
  | .read t _, _, _, ht, hsc, hwf => by
    obtain ⟨t', st1, ds1, e1, -, hb1⟩ := resolveLoc_spec ht hsc hwf
    exact ⟨_, _, _, by rw [resolveStmt]; exact e1.bind (.pure e1.wellFormed _),
      by simpa [Stmt.names] using hb1⟩
  | .write v _, _, _, hv, hsc, hwf | .ret (some v) _, _, _, hv, hsc, hwf => by
    obtain ⟨v', st1, ds1, e1, hb1⟩ := resolveExpr_spec v hv hsc hwf
    exact ⟨_, _, _, by rw [resolveStmt]; exact e1.bind (.pure e1.wellFormed _),
      by simpa [Stmt.names] using hb1⟩
  | .ifThen c ds ss _, _, _, ⟨hc, hds, hss⟩, hsc, hwf | .whileLoop c ds ss _, _, _, ⟨hc, hds, hss⟩, hsc, hwf
  | .repeatLoop c ds ss _, _, _, ⟨hc, hds, hss⟩, hsc, hwf => by
    obtain ⟨c', st1, ds1, e1, hb1⟩ := resolveExpr_spec c hc hsc hwf
    obtain ⟨ds', ss', st2, ds2, e2, hb2⟩ :=
      resolveBlock_spec hds (fun hi hw => resolveStmts_spec ss hss hi hw) e1.wellFormed
    exact ⟨_, _, _, by rw [resolveStmt]; exact e1.bind (e2.bind (.pure e2.wellFormed _)),
      by simpa [Stmt.names] using nil_append_iff_allBound hb1 hb2⟩
  | .ifThenElse c ds ss eds ess _, _, _, ⟨hc, hds, hss, heds, hess⟩, hsc, hwf => by
    obtain ⟨c', st1, ds1, e1, hb1⟩ := resolveExpr_spec c hc hsc hwf
    obtain ⟨ds', ss', st2, ds2, e2, hb2⟩ :=
      resolveBlock_spec hds (fun hi hw => resolveStmts_spec ss hss hi hw) e1.wellFormed
    obtain ⟨eds', ess', st3, ds3, e3, hb3⟩ :=
      resolveBlock_spec heds (fun hi hw => resolveStmts_spec ess hess hi hw) e2.wellFormed
    exact ⟨_, _, _, by rw [resolveStmt]; exact e1.bind (e2.bind (e3.bind (.pure e3.wellFormed _))),
      by simpa [Stmt.names] using nil_append_iff_allBound hb1 (nil_append_iff_allBound hb2 hb3)⟩
  | .call c args _ _, _, _, ⟨hc, hargs⟩, hsc, hwf => by
    obtain ⟨c', st1, ds1, e1, -, hb1⟩ := resolveUse_spec hc hsc hwf
    obtain ⟨args', st2, ds2, e2, hb2⟩ := resolveExprs_spec args hargs hsc e1.wellFormed
    have hc' : ds1 = [] ↔ AllBound [c'] := by simpa using hb1
    exact ⟨_, _, _, by rw [resolveStmt]; exact e1.bind (e2.bind (.pure e2.wellFormed _)),
      by simpa [Stmt.names] using nil_append_iff_allBound hc' hb2⟩
  | .ret none sp, _, st, _, _, hwf =>
    ⟨.ret none sp, st, [], by rw [resolveStmt]; exact .pure hwf _, by simp [Stmt.names]⟩

theorem resolveStmts_spec : ∀ (ss : List Stmt) {scopes : Scopes SymbolId} {st : Resolution},
    Stmt.AllFresh ss → scopes.frames ≠ [] → st.WellFormed →
    ∃ ss' st' ds, (resolveStmts scopes ss).Ends st ss' st' ds ∧ (ds = [] ↔ AllBound (Stmt.namesOf ss'))
  | [], _, st, _, _, hwf => ⟨[], st, [], by rw [resolveStmts]; exact .pure hwf _, by simp [Stmt.namesOf]⟩
  | s :: ss, _, _, ⟨hs, hss⟩, hsc, hwf => by
    obtain ⟨s', st1, ds1, e1, hb1⟩ := resolveStmt_spec s hs hsc hwf
    obtain ⟨ss', st2, ds2, e2, hb2⟩ := resolveStmts_spec ss hss hsc e1.wellFormed
    exact ⟨_, _, _, by rw [resolveStmts]; exact e1.bind (e2.bind (.pure e2.wellFormed _)),
      by simpa [Stmt.namesOf] using nil_append_iff_allBound hb1 hb2⟩

end

/-! ## Functions and structs -/

/-- A fresh function resolves and changes only the innermost scope; its parameters,
locals and body resolve in a scope of their own, closed again at the end. It
reports nothing exactly when it binds all its names. -/
theorem declareFn_spec {f : FnDecl} (hf : f.Fresh) (hsc : scopes.frames ≠ []) (hwf : st.WellFormed) :
    ∃ f' sc' st' ds, (declareFn scopes f).Ends st (f', sc') st' ds ∧ scopes.Amends sc' ∧
      (ds = [] ↔ AllBound f'.names) := by
  obtain ⟨hres, hn, hps, hds, hbody⟩ := hf
  obtain ⟨fr, rest, hfr⟩ := List.exists_cons_of_ne_nil hsc
  have hloc := Scopes.lookupLocal_cons hfr f.name.name
  have hnames : f.result.names = [] := by cases hr : f.result <;> simp_all [TypeExpr.IsBase, TypeExpr.names]
  cases hfn : fr.find? f.name.name with
  | some _ =>
    -- `E301`: the function makes no symbol, but its inside is resolved all the same
    obtain ⟨ps', tys, in1, st2, ds2, e2, ha2, hb2⟩ := declareParams_spec f.params hps
      (show scopes.push.frames ≠ [] by simp [Scopes.push]) (hwf.report .multiplyDeclared f.name.span)
    obtain ⟨dc', in2, st3, ds3, e3, ha3, hb3⟩ :=
      declareVars_spec none (by simp) f.decls hds ha2.ne_nil e2.wellFormed
    obtain ⟨body', st4, ds4, e4, hb4⟩ := resolveStmts_spec f.body hbody ha3.ne_nil e3.wellFormed
    refine ⟨{ f with params := ps', decls := dc', body := body' }, scopes, st4,
      [NameIssue.multiplyDeclared.toDiagnostic f.name.span] ++ ds2 ++ ds3 ++ ds4,
      ⟨?_, ?_, e4.wellFormed⟩, .refl hsc, iff_of_false (by simp) (by simp [FnDecl.names, hn])⟩
    · simp [declareFn, hloc, hfn, e2.exec_eq, e3.exec_eq, e4.exec_eq, (ha2.trans ha3).pop_push]
    · exact (((Resolution.extends_report _ _ _).trans e2.extends_).trans e3.extends_).trans e4.extends_
  | none =>
    -- the function's symbol is made before its parameters, which are then recorded in it
    have hfit : st.Fits (.function f.result.name none) := trivial
    obtain ⟨ps', tys, in1, st2, ds2, e2, ha2, hb2⟩ := declareParams_spec f.params hps
      (show (Scopes.push ⟨fr.add f.name.name ⟨st.symbols.size⟩ :: rest⟩).frames ≠ [] by simp [Scopes.push])
      (hwf.push hfit)
    have hrec : st2.symbols[(⟨st.symbols.size⟩ : SymbolId).index]? = some (.function f.result.name none) := by
      rw [e2.extends_.keeps _ (by simp)]
      simp
    have hwf2 := e2.wellFormed.setFunction hrec (.function f.result.name (some tys)) ⟨_, _, rfl⟩
    obtain ⟨dc', in2, st3, ds3, e3, ha3, hb3⟩ := declareVars_spec none (by simp) f.decls hds ha2.ne_nil hwf2
    obtain ⟨body', st4, ds4, e4, hb4⟩ := resolveStmts_spec f.body hbody ha3.ne_nil e3.wellFormed
    let name' := { f.name with sym := some ⟨st.symbols.size⟩ }
    refine ⟨{ f with name := name', params := ps', decls := dc', body := body' },
      ⟨fr.add f.name.name ⟨st.symbols.size⟩ :: rest⟩, st4,
      ds2 ++ ds3 ++ ds4, ⟨?_, ?_, e4.wellFormed⟩, ⟨fr, _, rest, hfr, rfl⟩, ?_⟩
    · simp [declareFn, hloc, hfn, Scopes.declare_cons hfr hfn, exec_bindIdent hn, e2.exec_eq,
        exec_recordParams hrec, e3.exec_eq, e4.exec_eq, (ha2.trans ha3).pop_push, name']
    · have h2 := (Resolution.extends_push st _).trans e2.extends_
      exact ((h2.setIfInBounds (Nat.le_refl _) _).trans e3.extends_).trans e4.extends_
    · simpa [FnDecl.names, hnames, name'] using nil_append_iff_allBound (nil_append_iff_allBound hb2 hb3) hb4

/-- A fresh struct declaration resolves and changes only the innermost scope; its
fields are declared in a scope of their own. It reports nothing exactly when it
binds all its names. -/
theorem declareStruct_spec {d : StructDecl} (hd : d.Fresh) (hsc : scopes.frames ≠ []) (hwf : st.WellFormed) :
    ∃ d' sc' st' ds, (declareStruct scopes d).Ends st (d', sc') st' ds ∧ scopes.Amends sc' ∧
      (ds = [] ↔ AllBound d'.names) := by
  obtain ⟨hn, hfs⟩ := hd
  obtain ⟨fr, rest, hfr⟩ := List.exists_cons_of_ne_nil hsc
  have hloc := Scopes.lookupLocal_cons hfr d.name.name
  have hinit : (Scopes.initial : Scopes SymbolId).frames ≠ [] := by simp [Scopes.initial]
  cases hfn : fr.find? d.name.name with
  | some _ =>
    -- `E301`: the struct makes no symbol, but its fields are resolved all the same
    obtain ⟨fs', fsc, st2, ds2, e2, -, hb2⟩ := declareVars_spec (some scopes) (by simpa using hsc) d.fields
      hfs hinit (hwf.report .multiplyDeclared d.name.span)
    refine ⟨{ d with fields := fs' }, scopes, st2, [NameIssue.multiplyDeclared.toDiagnostic d.name.span] ++ ds2,
      ⟨?_, (Resolution.extends_report _ _ _).trans e2.extends_, e2.wellFormed⟩, .refl hsc,
      iff_of_false (by simp) (by simp [StructDecl.names, hn])⟩
    simp [declareStruct, hloc, hfn, e2.exec_eq]
  | none =>
    obtain ⟨fs', fsc, st2, ds2, e2, ha2, hb2⟩ := declareVars_spec (some scopes) (by simpa using hsc) d.fields
      hfs hinit hwf
    -- the struct's symbol holds the scope of its fields, which is never empty
    have hfit : st2.Fits (.structDef fsc) := ha2.ne_nil
    refine ⟨{ d with name := { d.name with sym := some ⟨st2.symbols.size⟩ }, fields := fs' },
      ⟨fr.add d.name.name ⟨st2.symbols.size⟩ :: rest⟩, _, ds2 ++ [],
      ⟨?_, e2.extends_.trans (Resolution.extends_push _ _), e2.wellFormed.push hfit⟩, ⟨fr, _, rest, hfr, rfl⟩, ?_⟩
    · simp [declareStruct, hloc, hfn, e2.exec_eq, Scopes.declare_cons hfr hfn, exec_bindIdent hn]
    · simpa [StructDecl.names] using hb2

/-- A fresh declaration resolves and changes only the innermost scope. -/
theorem declareDecl_spec {d : Decl} (hd : d.Fresh) (hsc : scopes.frames ≠ []) (hwf : st.WellFormed) :
    ∃ d' sc' st' ds, (declareDecl scopes d).Ends st (d', sc') st' ds ∧ scopes.Amends sc' ∧
      (ds = [] ↔ AllBound d'.names) := by
  cases d with
  | var d =>
    obtain ⟨d', sc', st', ds, e, ha, hb⟩ := declareVar_spec hd hsc hsc hwf
    exact ⟨.var d', sc', st', ds, e.of_exec (by simp [declareDecl, e.exec_eq]), ha,
      by simpa [Decl.names] using hb⟩
  | fn f =>
    obtain ⟨f', sc', st', ds, e, ha, hb⟩ := declareFn_spec hd hsc hwf
    exact ⟨.fn f', sc', st', ds, e.of_exec (by simp [declareDecl, e.exec_eq]), ha,
      by simpa [Decl.names] using hb⟩
  | struct d =>
    obtain ⟨d', sc', st', ds, e, ha, hb⟩ := declareStruct_spec hd hsc hwf
    exact ⟨.struct d', sc', st', ds, e.of_exec (by simp [declareDecl, e.exec_eq]), ha,
      by simpa [Decl.names] using hb⟩

/-- Declarations resolved one after another. -/
theorem declareDecls_spec :
    ∀ (ds : List Decl) {scopes : Scopes SymbolId} {st : Resolution}, (∀ d ∈ ds, d.Fresh) →
      scopes.frames ≠ [] → st.WellFormed →
      ∃ ds' sc' st' diags, (declareDecls ds scopes).Ends st (ds', sc') st' diags ∧ scopes.Amends sc' ∧
        (diags = [] ↔ AllBound (ds'.flatMap Decl.names))
  | [], scopes, st, _, hsc, hwf =>
    ⟨[], scopes, st, [], ⟨by simp [declareDecls], .refl st, hwf⟩, .refl hsc, by simp⟩
  | d :: ds, scopes, st, hds, hsc, hwf => by
    simp only [List.mem_cons, forall_eq_or_imp] at hds
    obtain ⟨d', sc1, st1, diags1, e1, ha1, hb1⟩ := declareDecl_spec hds.1 hsc hwf
    obtain ⟨ds', sc2, st2, diags2, e2, ha2, hb2⟩ := declareDecls_spec ds hds.2 ha1.ne_nil e1.wellFormed
    exact ⟨d' :: ds', sc2, st2, diags1 ++ diags2,
      e1.of_exec₂ e2 (by simp [declareDecls, e1.exec_eq, e2.exec_eq]),
      ha1.trans ha2, by simpa using nil_append_iff_allBound hb1 hb2⟩

/-! ## Programs -/

/-- A fresh program resolves without a fault; the scope stack ends with the program's
scope alone, and the diagnostics are empty exactly when every name is bound. -/
theorem Program.resolve_spec {p : Program} (hp : p.Fresh) :
    ∃ r, p.resolve = .ok r ∧ (Scopes.initial : Scopes SymbolId).Amends r.scopes ∧
      (r.diagnostics = [] ↔ AllBound r.program.names) := by
  obtain ⟨ds', sc, st', diags, e, ha, hb⟩ := declareDecls_spec p.decls hp
    (show (Scopes.initial : Scopes SymbolId).frames ≠ [] by simp [Scopes.initial]) Resolution.wellFormed_empty
  have hx : (declareDecls p.decls Scopes.initial).run.run {} = (.ok (ds', sc), st') := e.exec_eq
  refine ⟨⟨{ p with decls := ds' }, st'.symbols, st'.diagnostics.toList, sc⟩, by simp [Program.resolve, hx], ha, ?_⟩
  -- resolution starts with no diagnostics, so those of the store are the run's
  have hdiag : st'.diagnostics.toList = diags := by simpa using e.extends_.diagnostics
  simpa [hdiag, Program.names] using hb

/-- **Resolution never faults.** Resolving a program the parser returns ends with a
result, and the scope stack then holds the program's scope alone: every scope a
function or a block opened was closed again. -/
theorem Program.resolve_total {ts : List Token} {eof : Token} {p : Program} (heof : eof.kind = .eof)
    (hp : Program.parse ts eof = .ok p) : ∃ r, p.resolve = .ok r ∧ r.scopes.depth = 1 := by
  obtain ⟨r, hr, ha, -⟩ := Program.resolve_spec (Program.parse_fresh heof hp)
  exact ⟨r, hr, by simpa [Scopes.depth, Scopes.initial] using ha.depth_eq⟩

/-- A function that calls itself inside a block resolves, and closes both scopes. -/
theorem resolve_total_recursive_block :
    ∃ p, Program.parse (scan "main.egg" "void f(int n) \x7b if (n) \x7b f(n); \x7d \x7d").tokens
      (scan "main.egg" "void f(int n) \x7b if (n) \x7b f(n); \x7d \x7d").eof = .ok p ∧
      ∃ r, p.resolve = .ok r ∧ r.scopes.depth = 1 := by
  have hok : (Program.parse (scan "main.egg" "void f(int n) \x7b if (n) \x7b f(n); \x7d \x7d").tokens
      (scan "main.egg" "void f(int n) \x7b if (n) \x7b f(n); \x7d \x7d").eof).isOk = true := by
    decide +kernel
  cases hp : Program.parse (scan "main.egg" "void f(int n) \x7b if (n) \x7b f(n); \x7d \x7d").tokens
      (scan "main.egg" "void f(int n) \x7b if (n) \x7b f(n); \x7d \x7d").eof with
  | error e =>
    rw [hp] at hok
    cases hok
  | ok p => exact ⟨p, rfl, Program.resolve_total (by decide +kernel) hp⟩

/-- **Resolution reports nothing exactly when it binds every name.** For a program
the parser returns, resolution ends with no diagnostic exactly when every name of
the resolved program is bound to a symbol: declared names, struct type names,
uses, callees and field names. -/
theorem Program.resolve_reports_iff_unbound {ts : List Token} {eof : Token} {p : Program}
    (heof : eof.kind = .eof) (hp : Program.parse ts eof = .ok p) :
    ∃ r, p.resolve = .ok r ∧ (r.diagnostics = [] ↔ ∀ i ∈ r.program.names, i.sym.isSome) := by
  obtain ⟨r, hr, -, hiff⟩ := Program.resolve_spec (Program.parse_fresh heof hp)
  exact ⟨r, hr, hiff⟩

/-- A field of a variable that is no struct, assigned from an undeclared name, is
reported, and leaves names unbound. -/
theorem resolve_reports_field_of_int :
    ∃ p, Program.parse (scan "main.egg" "int g; void main() \x7b g.x = y; \x7d").tokens (scan "main.egg" "int g; void main() \x7b g.x = y; \x7d").eof = .ok p ∧
      ∃ r, p.resolve = .ok r ∧ (r.diagnostics = [] ↔ ∀ i ∈ r.program.names, i.sym.isSome) := by
  have hok : (Program.parse (scan "main.egg" "int g; void main() \x7b g.x = y; \x7d").tokens
      (scan "main.egg" "int g; void main() \x7b g.x = y; \x7d").eof).isOk = true := by
    decide +kernel
  cases hp : Program.parse (scan "main.egg" "int g; void main() \x7b g.x = y; \x7d").tokens
      (scan "main.egg" "int g; void main() \x7b g.x = y; \x7d").eof with
  | error e =>
    rw [hp] at hok
    cases hok
  | ok p => exact ⟨p, rfl, Program.resolve_reports_iff_unbound (by decide +kernel) hp⟩

end EggFront
