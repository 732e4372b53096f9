import EggFront.Proofs.Binding.Faultless
import EggFront.Proofs.Binding.Visible

/-!
# Resolution follows lexical scoping

Resolution binds every use of a name to its innermost visible declaration, and
reports each use it cannot bind, once, at the use (`Program.resolve_lexical`):
the program it answers is the one it was given with names bound, it follows the
rules of `Program.Scoped`, and its undeclared-name reports are those of
`undeclaredAt` for its uses.

## The proof

The scope stack and the store of a run hold an environment (`Env.Models`): the
stack's frames are the environment's scopes with their symbols, and the store
has each declaration's symbol, a struct type exactly where the declaration
declares one. One lemma per resolution function, by structural recursion over
the syntax as in `Faultless`, runs the function from a stack and store that hold
`E`, and says what the result is against `E`, and which environment the scopes it
answers hold.
-/

namespace EggFront

open Resolve

/-- Whether a symbol is a struct type. -/
def Symbol.isStructDef : Symbol → Bool
  | .structDef _ => true
  | _ => false

/-! ## Environments held by scopes -/

namespace Env

/-- The frames of a scope stack that holds `E`. -/
def toFrames (E : Env) : List (Frame SymbolId) := E.map fun f => ⟨f.map fun b => (b.name, b.sym)⟩

/-- The scope stack `scopes` holds `E`, and the store `st` has a symbol for each of
its declarations, a struct type exactly for those that declare one. -/
structure Models (E : Env) (scopes : Scopes SymbolId) (st : Resolution) : Prop where
  ne_nil : E ≠ []
  frames : scopes.frames = E.toFrames
  kind : ∀ f ∈ E, ∀ b ∈ f, ∃ s, st.symbols[b.sym.index]? = some s ∧ s.isStructDef = b.isStruct

variable {E : Env} {scopes : Scopes SymbolId} {st st' : Resolution} {x : String}

theorem frame_find? (f : List Binding) (x : String) :
    (⟨f.map fun b => (b.name, b.sym)⟩ : Frame SymbolId).find? x = (f.find? (·.name == x)).map (·.sym) := by
  simp [Frame.find?, List.find?_map, Function.comp_def]

theorem find?_toFrames (E : Env) (x : String) : Scopes.find? E.toFrames x = E.use x := by
  induction E with
  | nil => rfl
  | cons f rest ih =>
    simp only [toFrames, List.map_cons, Scopes.find?] at ih ⊢
    simp only [ih, frame_find?, use, Env.find?, Option.map_or]

theorem find?_mem {b : Binding} (h : E.find? x = some b) : b.name = x ∧ ∃ f ∈ E, b ∈ f := by
  induction E with
  | nil => cases h
  | cons f rest ih =>
    rcases Option.or_eq_some_iff.1 h with hf | ⟨-, hr⟩
    · have hb := List.find?_some hf
      exact ⟨by simpa using hb, f, List.mem_cons_self, List.mem_of_find?_eq_some hf⟩
    · obtain ⟨hx, g, hg, hbg⟩ := ih hr
      exact ⟨hx, g, List.mem_cons_of_mem _ hg, hbg⟩

theorem Models.scopes_ne_nil (h : E.Models scopes st) : scopes.frames ≠ [] := by
  rw [h.frames]
  simp [toFrames, h.ne_nil]

theorem Models.lookup (h : E.Models scopes st) (x : String) : scopes.lookup x = .ok (E.use x) := by
  rw [Scopes.lookup_of_ne_nil h.scopes_ne_nil, h.frames, find?_toFrames]

/-- The innermost scope of the stack, and whether it declares `x`. -/
theorem Models.lookupLocal (h : E.Models scopes st) (x : String) :
    ∃ fr rest, scopes.frames = fr :: rest ∧ scopes.lookupLocal x = .ok (fr.find? x) ∧
      (fr.find? x).isSome = E.declaresHere x := by
  obtain ⟨f, restE, rfl⟩ := List.exists_cons_of_ne_nil h.ne_nil
  have hfr : scopes.frames = ⟨f.map fun b => (b.name, b.sym)⟩ :: toFrames restE := by rw [h.frames]; rfl
  refine ⟨_, _, hfr, Scopes.lookupLocal_cons hfr x, ?_⟩
  rw [frame_find?, Option.isSome_map, declaresHere, List.headD_cons]
  exact Bool.eq_iff_iff.2 (by rw [List.find?_isSome, List.any_eq_true])

/-- A symbol of the environment keeps its kind in a store that extends the first. -/
theorem Models.of_extends {ds : List Diagnostic} (h : E.Models scopes st) (he : st.Extends st' ds) :
    E.Models scopes st' := by
  refine ⟨h.ne_nil, h.frames, fun f hf b hb => ?_⟩
  obtain ⟨s, hs, hk⟩ := h.kind f hf b hb
  exact ⟨s, by rw [he.keeps _ (Array.getElem?_eq_some_iff.1 hs).1, hs], hk⟩

/-- Opening a scope opens an empty one in the environment. -/
theorem Models.push (h : E.Models scopes st) : Models ([] :: E) scopes.push st :=
  ⟨by simp, by simp [Scopes.push, h.frames, toFrames], by
    simpa using h.kind⟩

/-- Declaring a name the innermost scope lacks, with a new symbol, declares it in
the environment. -/
theorem Models.declare (h : E.Models scopes st) (hx : E.declaresHere x = false) (s : Symbol) :
    ∃ sc', scopes.declare x ⟨st.symbols.size⟩ = .ok sc' ∧
      (E.add ⟨x, ⟨st.symbols.size⟩, s.isStructDef⟩).Models sc' { st with symbols := st.symbols.push s } := by
  obtain ⟨fr, rest, hfr, -, hfind⟩ := h.lookupLocal x
  have hnone : fr.find? x = none := by
    rw [hx] at hfind
    exact Option.not_isSome_iff_eq_none.1 (by simp [hfind])
  refine ⟨_, Scopes.declare_cons hfr hnone _, ⟨?_, ?_, ?_⟩⟩
  · obtain ⟨f, restE, rfl⟩ := List.exists_cons_of_ne_nil h.ne_nil
    simp [Env.add]
  · obtain ⟨f, restE, rfl⟩ := List.exists_cons_of_ne_nil h.ne_nil
    rw [h.frames] at hfr
    simp only [toFrames, List.map_cons, List.cons.injEq] at hfr
    simp [Env.add, toFrames, ← hfr.1, ← hfr.2, Frame.add]
  · -- the old declarations keep their symbols, the new one has the pushed symbol
    have hold : ∀ f ∈ E, ∀ b ∈ f, ∃ s', ({ st with symbols := st.symbols.push s } : Resolution).symbols[b.sym.index]? =
        some s' ∧ s'.isStructDef = b.isStruct := by
      intro f hf b hb
      obtain ⟨s', hs', hk⟩ := h.kind f hf b hb
      have hlt := (Array.getElem?_eq_some_iff.1 hs').1
      exact ⟨s', by simp [Array.getElem?_push, Nat.ne_of_lt hlt, hs'], hk⟩
    have hnew : ∃ s', ({ st with symbols := st.symbols.push s } : Resolution).symbols[st.symbols.size]? =
        some s' ∧ s'.isStructDef = s.isStructDef := ⟨s, by simp, rfl⟩
    obtain ⟨f, restE, rfl⟩ := List.exists_cons_of_ne_nil h.ne_nil
    intro g hg b hb
    simp only [Env.add, List.mem_cons] at hg
    rcases hg with rfl | hg
    · rcases List.mem_append.1 hb with hb | hb
      · exact hold f List.mem_cons_self b hb
      · simp only [List.mem_singleton] at hb
        subst hb
        exact hnew
    · exact hold g (List.mem_cons_of_mem _ hg) b hb

/-- Recording a function's parameter types keeps every symbol's kind. -/
theorem Models.setFunction (h : E.Models scopes st) {k : Nat} {r : String} {ps ps' : Option (List String)}
    (hk : st.symbols[k]? = some (.function r ps)) :
    E.Models scopes { st with symbols := st.symbols.setIfInBounds k (.function r ps') } := by
  refine ⟨h.ne_nil, h.frames, fun f hf b hb => ?_⟩
  obtain ⟨s, hs, hkind⟩ := h.kind f hf b hb
  by_cases hbk : k = b.sym.index
  · rw [← hbk, hk] at hs
    cases hs
    have hlt : k < st.symbols.size := (Array.getElem?_eq_some_iff.1 hk).1
    exact ⟨.function r ps', by simp [← hbk, hlt], hkind⟩
  · exact ⟨s, by rwa [Array.getElem?_setIfInBounds_ne hbk], hkind⟩

/-- The struct type the environment gives a name is the symbol the stack finds for
it, when the store holds a struct type there. -/
theorem Models.structType_some (h : E.Models scopes st) {id : SymbolId} (hx : E.structType x = some id) :
    E.use x = some id ∧ st.IsStruct id := by
  unfold structType at hx
  split at hx
  · rename_i b hb
    split at hx
    · rename_i hs
      cases hx
      obtain ⟨-, f, hf, hbf⟩ := find?_mem hb
      obtain ⟨s, hs', hk⟩ := h.kind f hf b hbf
      rw [hs] at hk
      refine ⟨by simp [use, hb], ?_⟩
      cases s with
      | structDef fs => exact ⟨fs, hs'⟩
      | _ => cases hk
    · cases hx
  · cases hx

theorem Models.structType_none (h : E.Models scopes st) (hx : E.structType x = none) :
    E.use x = none ∨ ∃ id s, E.use x = some id ∧ st.symbols[id.index]? = some s ∧ s.isStructDef = false := by
  unfold structType at hx
  split at hx
  · rename_i b hb
    split at hx
    · cases hx
    · rename_i hs
      obtain ⟨-, f, hf, hbf⟩ := find?_mem hb
      obtain ⟨s, hs', hk⟩ := h.kind f hf b hbf
      exact .inr ⟨b.sym, s, by simp [use, hb], hs', by simpa [hs] using hk⟩
  · rename_i hb
    exact .inl (by simp [use, hb])

/-- Closing the innermost scope of a stack that holds `f :: E` gives back the stack
that held `E`. -/
theorem Models.pop {inner : Scopes SymbolId} {f : List Binding} (h : E.Models scopes st)
    (hi : Models (f :: E) inner st') : inner.pop = .ok scopes := by
  have hfr : inner.frames = ⟨f.map fun b => (b.name, b.sym)⟩ :: scopes.frames := by
    rw [hi.frames, h.frames]
    rfl
  rw [Scopes.pop_cons hfr]

/-! ### Declarations change the innermost scope only -/

theorem declare_tail (f : List Binding) (E : Env) (i : Ident) (isStruct : Bool) :
    ∃ g, Env.declare (f :: E) i isStruct = g :: E := by
  unfold Env.declare
  split
  · exact ⟨_, rfl⟩
  · exact ⟨f, rfl⟩

theorem declare_unbound {i : Ident} (hi : i.sym = none) (E : Env) (isStruct : Bool) :
    E.declare i isStruct = E := by
  simp [Env.declare, hi]

theorem declareAll_cons (E : Env) (i : Ident) (is : List Ident) :
    E.declareAll (i :: is) = (E.declare i false).declareAll is := rfl

theorem declareAll_append (E : Env) (is js : List Ident) :
    E.declareAll (is ++ js) = (E.declareAll is).declareAll js := List.foldl_append

theorem declareAll_tail : ∀ (is : List Ident) (f : List Binding) (E : Env),
    ∃ g, Env.declareAll (f :: E) is = g :: E
  | [], f, _ => ⟨f, rfl⟩
  | i :: is, f, E => by
    obtain ⟨g, hg⟩ := declare_tail f E i false
    rw [declareAll_cons, hg]
    exact declareAll_tail is g E

end Env

/-- The program's scope, empty, is held by the first scope stack, whatever the store. -/
theorem Env.models_initial (st : Resolution) : Env.Models [[]] Scopes.initial st :=
  ⟨by simp, rfl, by simp⟩

/-- Where the struct types of variable declarations are read: in the scopes they
are declared into (`none`), or in a stack that holds `T`. -/
def TypesHeld : Option Env → Option (Scopes SymbolId) → Resolution → Prop
  | none, none, _ => True
  | some T, some ts, st => T.Models ts st
  | _, _, _ => False

theorem TypesHeld.getD {E : Env} {scopes : Scopes SymbolId} {st : Resolution} :
    ∀ {T? : Option Env} {ts? : Option (Scopes SymbolId)}, TypesHeld T? ts? st → E.Models scopes st →
      (T?.getD E).Models (ts?.getD scopes) st
  | none, none, _, hE => hE
  | some _, some _, hT, _ => hT

theorem TypesHeld.of_extends {st st' : Resolution} {ds : List Diagnostic} (he : st.Extends st' ds) :
    ∀ {T? : Option Env} {ts? : Option (Scopes SymbolId)}, TypesHeld T? ts? st → TypesHeld T? ts? st'
  | none, none, _ => trivial
  | some _, some _, hT => Env.Models.of_extends hT he

/-! ## Reports of undeclared names -/

@[simp] theorem NameIssue.code_toDiagnostic (i : NameIssue) (sp : Span) : (i.toDiagnostic sp).code = i.code := rfl

@[simp] theorem undeclaredAt_nil : undeclaredAt [] = [] := rfl

@[simp] theorem undeclaredAt_append (is js : List Ident) :
    undeclaredAt (is ++ js) = undeclaredAt is ++ undeclaredAt js := by
  simp [undeclaredAt]

theorem undeclaredAt_cons (i : Ident) (is : List Ident) :
    undeclaredAt (i :: is) = undeclaredAt [i] ++ undeclaredAt is := by
  rw [← undeclaredAt_append]
  rfl

/-- The base of a field access reports only that it is no struct. -/
theorem fieldScope_reports (b : Loc) (st : Resolution) :
    ((fieldScope b).exec st).2.diagnostics.toList.filter (·.code == "E302") =
      st.diagnostics.toList.filter (·.code == "E302") := by
  cases b with
  | var i =>
    cases hi : i.sym with
    | none => simp [fieldScope, hi]
    | some id =>
      cases hs : st.symbols[id.index]? with
      | none => simp [fieldScope, hi, hs, NameIssue.code]
      | some s =>
        cases s with
        | structVar t d =>
          cases hd : st.symbols[d.index]? with
          | none => simp [fieldScope, fieldsOf, hi, hs, hd]
          | some s' => cases s' <;> simp [fieldScope, fieldsOf, hi, hs, hd]
        | _ => simp [fieldScope, hi, hs, NameIssue.code]
  | field b n sp failed record =>
    cases failed with
    | true => simp [fieldScope]
    | false =>
      cases record with
      | none => simp [fieldScope, NameIssue.code]
      | some d =>
        cases hd : st.symbols[d.index]? with
        | none => simp [fieldScope, fieldsOf, hd]
        | some s' => cases s' <;> simp [fieldScope, fieldsOf, hd]

/-! ## Uses -/

section Uses

variable {E : Env} {scopes : Scopes SymbolId} {st : Resolution}

/-- A use is bound to its innermost visible declaration, or reported once, at its span. -/
theorem resolveUse_lexical {i : Ident} (hi : i.sym = none) (hE : E.Models scopes st) (hwf : st.WellFormed) :
    ∃ st' ds, (resolveUse scopes i).Ends st { i with sym := E.use i.name } st' ds ∧
      ds.filter (·.code == "E302") = undeclaredAt [{ i with sym := E.use i.name }] := by
  cases hu : E.use i.name with
  | some id =>
    refine ⟨st, [], ⟨?_, .refl st, hwf⟩, by simp [undeclaredAt]⟩
    simp [resolveUse, hE.lookup, hu, hi]
  | none =>
    refine ⟨_, _, ⟨?_, Resolution.extends_report st .undeclared i.span, hwf.report _ _⟩, ?_⟩
    · simp [resolveUse, hE.lookup, hu, Ident.with_sym_none hi]
    · simp [undeclaredAt, NameIssue.code]

/-- A location's root is bound as its environment says; the location is the one
given with its annotations written, and reports each root left unbound. -/
theorem resolveLoc_lexical {l : Loc} (hl : l.Fresh) (hE : E.Models scopes st) (hwf : st.WellFormed) :
    ∃ l' st' ds, (resolveLoc scopes l).Ends st l' st' ds ∧ st'.Settled l' ∧ l'.UsesIn E ∧
      l'.strip = l ∧ ds.filter (·.code == "E302") = undeclaredAt l'.uses := by
  induction l generalizing st with
  | var i =>
    obtain ⟨st', ds, he, hds⟩ := resolveUse_lexical hl hE hwf
    refine ⟨.var { i with sym := E.use i.name }, st', ds,
      he.of_exec (by simp [resolveLoc, he.exec_eq]), trivial, rfl, ?_,
      by simpa [Loc.uses] using hds⟩
    simp only [Loc.strip, Ident.strip]
    rw [Ident.with_sym_none hl]
  | field b n sp failed record ih =>
    obtain ⟨hb, hn, rfl, rfl⟩ := hl
    obtain ⟨b', st1, ds1, e1, hs1, hu1, hst1, hr1⟩ := ih hb hE hwf
    obtain ⟨o, st2, ds2, e2, -, hsome⟩ := fieldScope_spec hs1 e1.wellFormed
    have he12 := e1.extends_.trans e2.extends_
    -- the access reads the base's fields, and reports no undeclared name
    have hds2 : ds2.filter (·.code == "E302") = [] := by
      have h := fieldScope_reports b' st1
      rw [e2.exec_eq, e2.extends_.diagnostics, List.filter_append] at h
      simpa using h
    have hstrip : ∀ (n' : Ident) (failed : Bool) (record : Option SymbolId), n'.strip = n →
        (Loc.field b' n' sp failed record).strip = .field b n sp false none := by
      intro n' failed record hn'
      simp [Loc.strip, hst1, hn']
    have hn0 : n.strip = n := Ident.with_sym_none hn
    cases o with
    | none =>
      refine ⟨.field b' n sp true none, st2, ds1 ++ ds2, ⟨?_, he12, e2.wellFormed⟩,
        ⟨fun _ => hn, by simp⟩, hu1, hstrip n _ _ hn0, by simp [Loc.uses, hr1, hds2]⟩
      simp [resolveLoc, e1.exec_eq, e2.exec_eq]
    | some fs =>
      obtain ⟨rfl, hfs⟩ := hsome fs rfl
      have hlook := Scopes.lookup_of_ne_nil hfs n.name
      cases hf : Scopes.find? fs.frames n.name with
      | none =>
        refine ⟨.field b' n sp true none, _, ds1 ++ [] ++ [NameIssue.noSuchField.toDiagnostic n.span],
          ⟨?_, he12.trans (Resolution.extends_report _ _ _), e2.wellFormed.report _ _⟩,
          ⟨fun _ => hn, by simp⟩, hu1, hstrip n _ _ hn0, ?_⟩
        · simp [resolveLoc, e1.exec_eq, e2.exec_eq, hlook, hf]
        · simp [Loc.uses, hr1, NameIssue.code]
      | some fid =>
        obtain ⟨o', ho', hrec⟩ := recordOf_spec e2.wellFormed fid
        refine ⟨.field b' { n with sym := some fid } sp false o', st2, ds1 ++ [],
          ⟨?_, he12, e2.wellFormed⟩, ⟨by simp, hrec⟩, hu1, hstrip _ _ _ (Ident.with_sym_none hn),
          by simp [Loc.uses, hr1]⟩
        cases o' <;> simp [resolveLoc, e1.exec_eq, e2.exec_eq, hlook, hf, hn, ho']

end Uses

/-! ## Expressions -/

section Expressions

variable {E : Env} {scopes : Scopes SymbolId}

mutual

/-- Every use in an expression is bound as its environment says, and reported
once when unbound; the expression is the one given with its annotations written. -/
theorem resolveExpr_lexical : ∀ (e : Expr) {st : Resolution}, e.Fresh → E.Models scopes st →
    st.WellFormed → ∃ e' st' ds, (resolveExpr scopes e).Ends st e' st' ds ∧ e'.UsesIn E ∧
      e'.strip = e ∧ ds.filter (·.code == "E302") = undeclaredAt e'.uses
  | .int n sp, st, _, _, hwf =>
    ⟨.int n sp, st, [], ⟨by simp [resolveExpr], .refl st, hwf⟩, trivial, rfl, rfl⟩
  | .str t sp, st, _, _, hwf =>
    ⟨.str t sp, st, [], ⟨by simp [resolveExpr], .refl st, hwf⟩, trivial, rfl, rfl⟩
  | .bool b sp, st, _, _, hwf =>
    ⟨.bool b sp, st, [], ⟨by simp [resolveExpr], .refl st, hwf⟩, trivial, rfl, rfl⟩
  | .loc l, _, he, hE, hwf => by
    obtain ⟨l', st', ds, e1, -, hu, hs, hr⟩ := resolveLoc_lexical he hE hwf
    exact ⟨.loc l', st', ds, e1.of_exec (by simp [resolveExpr, e1.exec_eq]), hu,
      by simp [Expr.strip, hs], by simpa [Expr.uses] using hr⟩
  | .assign t v sp, _, ⟨ht, hv⟩, hE, hwf => by
    obtain ⟨t', st1, ds1, e1, -, hu1, hs1, hr1⟩ := resolveLoc_lexical ht hE hwf
    obtain ⟨v', st2, ds2, e2, hu2, hs2, hr2⟩ :=
      resolveExpr_lexical v hv (hE.of_extends e1.extends_) e1.wellFormed
    exact ⟨.assign t' v' sp, st2, ds1 ++ ds2,
      e1.of_exec₂ e2 (by simp [resolveExpr, e1.exec_eq, e2.exec_eq]),
      ⟨hu1, hu2⟩, by simp [Expr.strip, hs1, hs2], by simp [Expr.uses, hr1, hr2]⟩
  | .call c args sp, _, ⟨hc, hargs⟩, hE, hwf => by
    obtain ⟨st1, ds1, e1, hr1⟩ := resolveUse_lexical hc hE hwf
    obtain ⟨args', st2, ds2, e2, hu2, hs2, hr2⟩ :=
      resolveExprs_lexical args hargs (hE.of_extends e1.extends_) e1.wellFormed
    refine ⟨.call { c with sym := E.use c.name } args' sp, st2, ds1 ++ ds2,
      e1.of_exec₂ e2 (by simp [resolveExpr, e1.exec_eq, e2.exec_eq]),
      ⟨rfl, hu2⟩, ?_, ?_⟩
    · simp only [Expr.strip, Ident.strip, hs2]
      rw [Ident.with_sym_none hc]
    · rw [Expr.uses, undeclaredAt_cons, List.filter_append, hr1, hr2]
  | .unary op e sp, _, he, hE, hwf => by
    obtain ⟨e', st', ds, e1, hu, hs, hr⟩ := resolveExpr_lexical e he hE hwf
    exact ⟨.unary op e' sp, st', ds, e1.of_exec (by simp [resolveExpr, e1.exec_eq]),
      hu, by simp [Expr.strip, hs], by simpa [Expr.uses] using hr⟩
  | .binary l op r sp, _, ⟨hl, hr⟩, hE, hwf => by
    obtain ⟨l', st1, ds1, e1, hu1, hs1, hr1⟩ := resolveExpr_lexical l hl hE hwf
    obtain ⟨r', st2, ds2, e2, hu2, hs2, hr2⟩ :=
      resolveExpr_lexical r hr (hE.of_extends e1.extends_) e1.wellFormed
    exact ⟨.binary l' op r' sp, st2, ds1 ++ ds2,
      e1.of_exec₂ e2 (by simp [resolveExpr, e1.exec_eq, e2.exec_eq]),
      ⟨hu1, hu2⟩, by simp [Expr.strip, hs1, hs2], by simp [Expr.uses, hr1, hr2]⟩

theorem resolveExprs_lexical : ∀ (es : List Expr) {st : Resolution}, Expr.AllFresh es →
    E.Models scopes st → st.WellFormed →
    ∃ es' st' ds, (resolveExprs scopes es).Ends st es' st' ds ∧ Expr.AllUsesIn E es' ∧
      Expr.stripAll es' = es ∧ ds.filter (·.code == "E302") = undeclaredAt (Expr.usesOf es')
  | [], st, _, _, hwf => ⟨[], st, [], ⟨by simp [resolveExprs], .refl st, hwf⟩, trivial, rfl, rfl⟩
  | e :: es, _, ⟨he, hes⟩, hE, hwf => by
    obtain ⟨e', st1, ds1, e1, hu1, hs1, hr1⟩ := resolveExpr_lexical e he hE hwf
    obtain ⟨es', st2, ds2, e2, hu2, hs2, hr2⟩ :=
      resolveExprs_lexical es hes (hE.of_extends e1.extends_) e1.wellFormed
    exact ⟨e' :: es', st2, ds1 ++ ds2,
      e1.of_exec₂ e2 (by simp [resolveExprs, e1.exec_eq, e2.exec_eq]),
      ⟨hu1, hu2⟩, by simp [Expr.stripAll, hs1, hs2], by simp [Expr.usesOf, hr1, hr2]⟩

end

end Expressions

/-! ## Declarations -/

section Declarations

variable {E T : Env} {scopes ts : Scopes SymbolId} {st : Resolution}

/-- A struct name reads in the store as the struct type `T` gives it. -/
theorem Env.Models.structIn (hT : T.Models ts st) {d : VarDecl} {n : Ident} {sp : Span}
    (htype : d.type = .struct n sp) : d.structIn ts st = T.structType n.name := by
  have hfind : Scopes.find? ts.frames n.name = T.use n.name := by rw [hT.frames, Env.find?_toFrames]
  cases hS : T.structType n.name with
  | some id =>
    obtain ⟨hu, fs, hs⟩ := hT.structType_some hS
    simp [VarDecl.structIn, htype, hfind, hu, hs]
  | none =>
    rcases hT.structType_none hS with hu | ⟨id, s, hu, hs, hk⟩
    · simp [VarDecl.structIn, htype, hfind, hu]
    · cases s <;> simp_all [VarDecl.structIn, Symbol.isStructDef]

namespace VarDecl

variable {d : VarDecl} {o : Option SymbolId}

theorem symbolWith_isStructDef (o : Option SymbolId) : (d.symbolWith o).isStructDef = false := by
  cases o <;> rfl

/-- Binding the names of a fresh declaration changes nothing that `strip` keeps. -/
theorem strip_typeWith (hd : d.Fresh) (o : Option SymbolId) {i : Ident} (hi : { i with sym := none } = d.name) :
    VarDecl.strip { d with type := d.typeWith o, name := i } = d := by
  obtain ⟨ht, hn⟩ := hd
  obtain ⟨ty, name, sp⟩ := d
  cases ty <;> simp_all [VarDecl.strip, typeWith, TypeExpr.strip, Ident.strip, TypeExpr.Fresh, Ident.with_sym_none]

/-- A declaration whose struct name is bound as `T` says follows the rule for struct names. -/
theorem typeWith_scoped (ho : ∀ n sp, d.type = .struct n sp → o = T.structType n.name) :
    ∀ n s, d.typeWith o = .struct n s → n.sym = T.structType n.name := by
  intro n s h
  unfold typeWith at h
  split at h
  · rename_i n' sp' htype
    simp only [TypeExpr.struct.injEq] at h
    rw [← h.1]
    exact ho n' sp' htype
  · rename_i hns
    exact absurd h (hns n s)

/-- The rules accept a declaration whose struct name is bound as `T` says exactly
when nothing refuses it. -/
theorem accepted_iff (ho : ∀ n sp, d.type = .struct n sp → o = T.structType n.name) {i : Ident}
    (hi : i.name = d.name.name) :
    ({ d with type := d.typeWith o, name := i } : VarDecl).Accepted T E ↔
      d.refusals o (E.declaresHere d.name.name) = [] := by
  rw [refusals_eq_nil_iff]
  cases htype : d.type with
  | struct n sp => simp [Accepted, typeWith, htype, hi, ho n sp htype]
  | _ => simp [Accepted, typeWith, htype, hi]

/-- No refusal reports an undeclared name. -/
theorem refusals_filter_undeclared (o : Option SymbolId) (taken : Bool) :
    (d.refusals o taken).filter (·.code == "E302") = [] := by
  cases htype : d.type <;> cases o <;> cases taken <;> simp [refusals, htype, NameIssue.code]

end VarDecl

/-- A variable declaration is accepted exactly when the rules accept it, and then
declared in the innermost scope with a symbol of its own; its struct type name is
bound to the struct type it names where it is read. -/
theorem declareVar_lexical {d : VarDecl} (hd : d.Fresh) (hT : T.Models ts st) (hE : E.Models scopes st)
    (hwf : st.WellFormed) :
    ∃ d' sc' st' ds, (declareVar ts scopes d).Ends st (d', sc') st' ds ∧ d'.ScopedIn T E ∧
      d'.strip = d ∧ (E.declare d'.name false).Models sc' st' ∧ ds.filter (·.code == "E302") = [] := by
  obtain ⟨fr, rest, hfr, -, hhere⟩ := hE.lookupLocal d.name.name
  -- the struct name reads in the store as the struct type `T` gives it
  have ho : ∀ n sp, d.type = .struct n sp → d.structIn ts st = T.structType n.name :=
    fun _ _ htype => hT.structIn htype
  rcases declareVar_exec st hd hT.scopes_ne_nil hfr with ⟨hne, st', hx, hsym, hds⟩ | ⟨hnil, hx⟩
  · -- refused, by the rules too: the name stays unbound and the scopes as they were
    have hEnd := Ends.of_reports _ hx hsym hds hwf
    rw [hhere] at hne
    refine ⟨_, _, _, _, hEnd, ⟨VarDecl.typeWith_scoped ho, ?_⟩,
      VarDecl.strip_typeWith hd _ (Ident.with_sym_none hd.2),
      by simpa [Env.declare, hd.2] using hE.of_extends hEnd.extends_, VarDecl.refusals_filter_undeclared _ _⟩
    simpa [hd.2] using mt (VarDecl.accepted_iff (E := E) (i := d.name) ho rfl).1 hne
  · -- accepted, by the rules too: declared with a symbol of its own
    obtain ⟨-, -, htaken⟩ := VarDecl.refusals_eq_nil_iff.1 hnil
    have hnone : fr.find? d.name.name = none := by simpa using htaken
    have hfree : E.declaresHere d.name.name = false := by rw [← hhere, htaken]
    obtain ⟨sc', hdecl, hM⟩ := hE.declare hfree (d.symbolWith (d.structIn ts st))
    rw [Scopes.declare_cons hfr hnone, Except.ok.injEq] at hdecl
    subst hdecl
    refine ⟨_, _, _, [], ⟨hx, Resolution.extends_push _ _, hwf.push (VarDecl.fits_symbolWith ts st)⟩,
      ⟨VarDecl.typeWith_scoped ho, ?_⟩, VarDecl.strip_typeWith hd _ (by simp [Ident.with_sym_none hd.2]),
      by simpa [Env.declare, VarDecl.symbolWith_isStructDef] using hM, rfl⟩
    rw [hhere] at hnil
    simpa using (VarDecl.accepted_iff (E := E) (i := { d.name with sym := some ⟨st.symbols.size⟩ }) ho rfl).2 hnil

/-- Variables declared one after another, each in the environment the ones before
it left. -/
theorem declareVars_lexical {T? : Option Env} {ts? : Option (Scopes SymbolId)} :
    ∀ (ds : List VarDecl) {E : Env} {scopes : Scopes SymbolId} {st : Resolution}, (∀ d ∈ ds, d.Fresh) →
      TypesHeld T? ts? st → E.Models scopes st → st.WellFormed →
      ∃ ds' sc' st' diags, (declareVars ts? ds scopes).Ends st (ds', sc') st' diags ∧
        VarDecl.AllScopedIn T? E ds' ∧ ds'.map VarDecl.strip = ds ∧
        (E.declareAll (ds'.map (·.name))).Models sc' st' ∧ diags.filter (·.code == "E302") = []
  | [], _, scopes, st, _, _, hE, hwf =>
    ⟨[], scopes, st, [], ⟨by simp [declareVars], .refl st, hwf⟩, trivial, rfl, hE, rfl⟩
  | d :: ds, _, _, _, hds, hT, hE, hwf => by
    simp only [List.mem_cons, forall_eq_or_imp] at hds
    obtain ⟨d', sc1, st1, diags1, e1, hs1, hd1, hE1, hr1⟩ := declareVar_lexical hds.1 (hT.getD hE) hE hwf
    obtain ⟨ds', sc2, st2, diags2, e2, hs2, hd2, hE2, hr2⟩ :=
      declareVars_lexical ds hds.2 (hT.of_extends e1.extends_) hE1 e1.wellFormed
    exact ⟨d' :: ds', sc2, st2, diags1 ++ diags2,
      e1.of_exec₂ e2 (by simp [declareVars, e1.exec_eq, e2.exec_eq]),
      ⟨hs1, hs2⟩, by simp [hd1, hd2], hE2, by simp [hr1, hr2]⟩

/-- No refusal of a parameter reports an undeclared name. -/
theorem Param.refusals_filter_undeclared {p : Param} (taken : Bool) :
    (p.refusals taken).filter (·.code == "E302") = [] := by
  cases htype : p.type <;> cases taken <;> simp [Param.refusals, htype, NameIssue.code]

/-- A parameter is declared exactly when the rules accept it. -/
theorem declareParam_lexical {p : Param} (hp : p.Fresh) (hE : E.Models scopes st) (hwf : st.WellFormed) :
    ∃ p' ty sc' st' ds, (declareParam scopes p).Ends st (p', ty, sc') st' ds ∧ p'.ScopedIn E ∧
      p'.strip = p ∧ (E.declare p'.name false).Models sc' st' ∧ ds.filter (·.code == "E302") = [] := by
  obtain ⟨fr, rest, hfr, -, hhere⟩ := hE.lookupLocal p.name.name
  rcases declareParam_exec st hp hfr with ⟨hne, st', hx, hsym, hds⟩ | ⟨hnil, hx⟩
  · -- refused, by the rules too: the name stays unbound and the scopes as they were
    have hEnd := Ends.of_reports _ hx hsym hds hwf
    rw [hhere, Ne, Param.refusals_eq_nil_iff] at hne
    exact ⟨_, _, _, _, _, hEnd, by simp [Param.ScopedIn, hp.2, hne],
      by simp [Param.strip, Ident.strip, Ident.with_sym_none hp.2],
      by simpa [Env.declare, hp.2] using hE.of_extends hEnd.extends_, Param.refusals_filter_undeclared _⟩
  · -- accepted, by the rules too: declared with a variable of its own
    rw [hhere, Param.refusals_eq_nil_iff] at hnil
    obtain ⟨sc', hdecl, hM⟩ := hE.declare hnil.2 (.var p.type.name)
    have hnone : fr.find? p.name.name = none := by simpa [hnil.2] using hhere
    rw [Scopes.declare_cons hfr hnone, Except.ok.injEq] at hdecl
    subst hdecl
    exact ⟨_, _, _, _, [], ⟨hx, Resolution.extends_push _ _, hwf.push trivial⟩, by simp [Param.ScopedIn, hnil],
      by simp [Param.strip, Ident.strip, Ident.with_sym_none hp.2],
      by simpa [Env.declare, Symbol.isStructDef] using hM, rfl⟩

/-- Parameters declared one after another. -/
theorem declareParams_lexical :
    ∀ (ps : List Param) {E : Env} {scopes : Scopes SymbolId} {st : Resolution}, (∀ p ∈ ps, p.Fresh) →
      E.Models scopes st → st.WellFormed →
      ∃ ps' tys sc' st' ds, (declareParams ps scopes).Ends st (ps', tys, sc') st' ds ∧
        Param.AllScopedIn E ps' ∧ ps'.map Param.strip = ps ∧
        (E.declareAll (ps'.map (·.name))).Models sc' st' ∧ ds.filter (·.code == "E302") = []
  | [], _, scopes, st, _, hE, hwf =>
    ⟨[], [], scopes, st, [], ⟨by simp [declareParams], .refl st, hwf⟩, trivial, rfl, hE, rfl⟩
  | p :: ps, _, _, _, hps, hE, hwf => by
    simp only [List.mem_cons, forall_eq_or_imp] at hps
    obtain ⟨p', ty, sc1, st1, ds1, e1, hs1, hp1, hE1, hr1⟩ := declareParam_lexical hps.1 hE hwf
    obtain ⟨ps', tys, sc2, st2, ds2, e2, hs2, hp2, hE2, hr2⟩ := declareParams_lexical ps hps.2 hE1 e1.wellFormed
    exact ⟨p' :: ps', ty.toList ++ tys, sc2, st2, ds1 ++ ds2,
      e1.of_exec₂ e2 (by simp [declareParams, e1.exec_eq, e2.exec_eq]),
      ⟨hs1, hs2⟩, by simp [hp1, hp2], hE2, by simp [hr1, hr2]⟩

end Declarations

/-! ## Statements -/

section Statements

variable {E : Env} {scopes : Scopes SymbolId} {st : Resolution}

/-- A block's declarations are a scope inside the block's environment, seen by its
statements; the scope is closed again at the end. -/
theorem resolveBlock_lexical {ds : List VarDecl} {ss : List Stmt} (hds : ∀ d ∈ ds, d.Fresh)
    (hss : ∀ {E' : Env} {inner : Scopes SymbolId} {st : Resolution}, E'.Models inner st → st.WellFormed →
      ∃ ss' st' diags, (resolveStmts inner ss).Ends st ss' st' diags ∧ Stmt.AllScopedIn E' ss' ∧
        Stmt.stripAll ss' = ss ∧ diags.filter (·.code == "E302") = undeclaredAt (Stmt.usesOf ss'))
    (hE : E.Models scopes st) (hwf : st.WellFormed) :
    ∃ ds' ss' st' diags, (resolveBlock scopes ds ss).Ends st (ds', ss') st' diags ∧
      VarDecl.AllScopedIn none ([] :: E) ds' ∧
      Stmt.AllScopedIn (Env.declareAll ([] :: E) (ds'.map (·.name))) ss' ∧
      ds'.map VarDecl.strip = ds ∧ Stmt.stripAll ss' = ss ∧
      diags.filter (·.code == "E302") = undeclaredAt (Stmt.usesOf ss') := by
  obtain ⟨ds', inner, st1, diags1, e1, hs1, hd1, hE1, hr1⟩ :=
    declareVars_lexical ds hds (show TypesHeld none none st from trivial) hE.push hwf
  obtain ⟨ss', st2, diags2, e2, hs2, hst2, hr2⟩ := hss hE1 e1.wellFormed
  -- the block's declarations went into its own scope, which is the one closed
  obtain ⟨g, hg⟩ := Env.declareAll_tail (ds'.map (·.name)) [] E
  have hpop : inner.pop = .ok scopes := hE.pop (hg ▸ hE1)
  exact ⟨ds', ss', st2, diags1 ++ diags2,
    e1.of_exec₂ e2 (by simp [resolveBlock, e1.exec_eq, e2.exec_eq, hpop]),
    hs1, hs2, hd1, hst2, by simp [hr1, hr2]⟩

mutual

/-- Every use in a statement is bound as the rules say, and reported once when
unbound; the statement is the one given with its annotations written. -/
theorem resolveStmt_lexical : ∀ (s : Stmt) {E : Env} {scopes : Scopes SymbolId} {st : Resolution},
    s.Fresh → E.Models scopes st → st.WellFormed →
    ∃ s' st' ds, (resolveStmt scopes s).Ends st s' st' ds ∧ s'.ScopedIn E ∧ s'.strip = s ∧
      ds.filter (·.code == "E302") = undeclaredAt s'.uses
  | .assign t v as sp, _, _, _, ⟨ht, hv⟩, hE, hwf => by
    obtain ⟨t', st1, ds1, e1, -, hu1, hs1, hr1⟩ := resolveLoc_lexical ht hE hwf
    obtain ⟨v', st2, ds2, e2, hu2, hs2, hr2⟩ :=
      resolveExpr_lexical v hv (hE.of_extends e1.extends_) e1.wellFormed
    exact ⟨.assign t' v' as sp, _, _, by rw [resolveStmt]; exact e1.bind (e2.bind (.pure e2.wellFormed _)),
      ⟨hu1, hu2⟩, by simp [Stmt.strip, hs1, hs2], by simp [Stmt.uses, hr1, hr2]⟩
  | .increment t sp, _, _, _, ht, hE, hwf | .decrement t sp, _, _, _, ht, hE, hwf
  | .read t sp, _, _, _, ht, hE, hwf => by
    obtain ⟨t', st1, ds1, e1, -, hu1, hs1, hr1⟩ := resolveLoc_lexical ht hE hwf
    refine ⟨_, _, _, by rw [resolveStmt]; exact e1.bind (.pure e1.wellFormed _), ?_, ?_, ?_⟩
    all_goals simp [Stmt.ScopedIn, Stmt.strip, Stmt.uses, hu1, hs1, hr1]
  | .write v sp, _, _, _, hv, hE, hwf | .ret (some v) sp, _, _, _, hv, hE, hwf => by
    obtain ⟨v', st1, ds1, e1, hu1, hs1, hr1⟩ := resolveExpr_lexical v hv hE hwf
    refine ⟨_, _, _, by rw [resolveStmt]; exact e1.bind (.pure e1.wellFormed _), ?_, ?_, ?_⟩
    all_goals simp [Stmt.ScopedIn, Stmt.strip, Stmt.uses, hu1, hs1, hr1]
  | .ifThen c ds ss sp, _, _, _, ⟨hc, hds, hss⟩, hE, hwf
  | .whileLoop c ds ss sp, _, _, _, ⟨hc, hds, hss⟩, hE, hwf
  | .repeatLoop c ds ss sp, _, _, _, ⟨hc, hds, hss⟩, hE, hwf => by
    obtain ⟨c', st1, ds1, e1, hu1, hs1, hr1⟩ := resolveExpr_lexical c hc hE hwf
    obtain ⟨ds', ss', st2, ds2, e2, hb1, hb2, hd2, hs2, hr2⟩ :=
      resolveBlock_lexical hds (fun hi hw => resolveStmts_lexical ss hss hi hw) (hE.of_extends e1.extends_)
        e1.wellFormed
    refine ⟨_, _, _, by rw [resolveStmt]; exact e1.bind (e2.bind (.pure e2.wellFormed _)), ?_, ?_, ?_⟩
    all_goals simp [Stmt.ScopedIn, Stmt.strip, Stmt.uses, hu1, hb1, hb2, hs1, hd2, hs2, hr1, hr2]
  | .ifThenElse c ds ss eds ess sp, _, _, _, ⟨hc, hds, hss, heds, hess⟩, hE, hwf => by
    obtain ⟨c', st1, ds1, e1, hu1, hs1, hr1⟩ := resolveExpr_lexical c hc hE hwf
    obtain ⟨ds', ss', st2, ds2, e2, hb1, hb2, hd2, hs2, hr2⟩ :=
      resolveBlock_lexical hds (fun hi hw => resolveStmts_lexical ss hss hi hw) (hE.of_extends e1.extends_)
        e1.wellFormed
    obtain ⟨eds', ess', st3, ds3, e3, hb3, hb4, hd3, hs3, hr3⟩ :=
      resolveBlock_lexical heds (fun hi hw => resolveStmts_lexical ess hess hi hw)
        (hE.of_extends (e1.extends_.trans e2.extends_)) e2.wellFormed
    refine ⟨_, _, _, by rw [resolveStmt]; exact e1.bind (e2.bind (e3.bind (.pure e3.wellFormed _))), ?_, ?_, ?_⟩
    all_goals simp [Stmt.ScopedIn, Stmt.strip, Stmt.uses, hu1, hb1, hb2, hb3, hb4, hs1, hd2, hs2, hd3, hs3,
      hr1, hr2, hr3]
  | .call c args cs sp, E, _, _, ⟨hc, hargs⟩, hE, hwf => by
    obtain ⟨st1, ds1, e1, hr1⟩ := resolveUse_lexical hc hE hwf
    obtain ⟨args', st2, ds2, e2, hu2, hs2, hr2⟩ :=
      resolveExprs_lexical args hargs (hE.of_extends e1.extends_) e1.wellFormed
    refine ⟨.call { c with sym := E.use c.name } args' cs sp, _, _,
      by rw [resolveStmt]; exact e1.bind (e2.bind (.pure e2.wellFormed _)), ⟨rfl, hu2⟩, ?_, ?_⟩
    · simp only [Stmt.strip, Ident.strip, hs2]
      rw [Ident.with_sym_none hc]
    · rw [Stmt.uses, undeclaredAt_cons, List.append_nil, List.filter_append, hr1, hr2]
  | .ret none sp, _, _, st, _, _, hwf =>
    ⟨.ret none sp, st, [], by rw [resolveStmt]; exact .pure hwf _, trivial, rfl, rfl⟩

theorem resolveStmts_lexical : ∀ (ss : List Stmt) {E : Env} {scopes : Scopes SymbolId} {st : Resolution},
    Stmt.AllFresh ss → E.Models scopes st → st.WellFormed →
    ∃ ss' st' ds, (resolveStmts scopes ss).Ends st ss' st' ds ∧ Stmt.AllScopedIn E ss' ∧
      Stmt.stripAll ss' = ss ∧ ds.filter (·.code == "E302") = undeclaredAt (Stmt.usesOf ss')
  | [], _, _, st, _, _, hwf => ⟨[], st, [], by rw [resolveStmts]; exact .pure hwf _, trivial, rfl, rfl⟩
  | s :: ss, _, _, _, ⟨hs, hss⟩, hE, hwf => by
    obtain ⟨s', st1, ds1, e1, hu1, hs1, hr1⟩ := resolveStmt_lexical s hs hE hwf
    obtain ⟨ss', st2, ds2, e2, hu2, hs2, hr2⟩ :=
      resolveStmts_lexical ss hss (hE.of_extends e1.extends_) e1.wellFormed
    refine ⟨s' :: ss', _, _, by rw [resolveStmts]; exact e1.bind (e2.bind (.pure e2.wellFormed _)),
      ⟨hu1, hu2⟩, by simp [Stmt.stripAll, hs1, hs2], ?_⟩
    simp [Stmt.usesOf, hr1, hr2]

end

end Statements

/-! ## Functions, structs and programs -/

section Programs

variable {E : Env} {scopes : Scopes SymbolId} {st : Resolution}

/-- A function's name is declared exactly when the program's scope lacks it; its
parameters, then its locals, are declared in one scope inside, where its own name is
visible, and its body sees them all. -/
theorem declareFn_lexical {f : FnDecl} (hf : f.Fresh) (hE : E.Models scopes st) (hwf : st.WellFormed) :
    ∃ f' sc' st' ds, (declareFn scopes f).Ends st (f', sc') st' ds ∧ f'.ScopedIn E ∧ f'.strip = f ∧
      (E.declare f'.name false).Models sc' st' ∧
      ds.filter (·.code == "E302") = undeclaredAt (Stmt.usesOf f'.body) := by
  obtain ⟨-, hn, hps, hds, hbody⟩ := hf
  obtain ⟨fr, rest, hfr, hloc, hhere⟩ := hE.lookupLocal f.name.name
  cases hfn : fr.find? f.name.name with
  | some _ =>
    -- `E301`: the function makes no symbol, but its inside is resolved all the same
    have htaken : E.declaresHere f.name.name = true := by rw [← hhere, hfn]; rfl
    have he1 := Resolution.extends_report st .multiplyDeclared f.name.span
    have hE1 := hE.of_extends he1
    obtain ⟨ps', tys, in1, st2, ds2, e2, hp2, hs2, hE2, hr2⟩ :=
      declareParams_lexical f.params hps hE1.push (hwf.report .multiplyDeclared f.name.span)
    obtain ⟨dc', in2, st3, ds3, e3, hd3, hs3, hE3, hr3⟩ :=
      declareVars_lexical f.decls hds (show TypesHeld none none st2 from trivial) hE2 e2.wellFormed
    obtain ⟨body', st4, ds4, e4, hb4, hs4, hr4⟩ := resolveStmts_lexical f.body hbody hE3 e3.wellFormed
    -- the function's scope is the one closed at the end
    obtain ⟨g, hg⟩ := Env.declareAll_tail (ps'.map (·.name) ++ dc'.map (·.name)) [] E
    have hin : Env.Models (g :: E) in2 st3 := by rwa [← hg, Env.declareAll_append]
    have hpop : in2.pop = .ok scopes := hE.pop hin
    refine ⟨{ f with params := ps', decls := dc', body := body' }, scopes, st4,
      [NameIssue.multiplyDeclared.toDiagnostic f.name.span] ++ ds2 ++ ds3 ++ ds4,
      ⟨?_, ((he1.trans e2.extends_).trans e3.extends_).trans e4.extends_, e4.wellFormed⟩,
      ⟨by simp [hn, htaken], ?_, ?_, ?_⟩, ?_, ?_, ?_⟩
    · simp [declareFn, hloc, hfn, e2.exec_eq, e3.exec_eq, e4.exec_eq, hpop]
    · simpa [Env.declare_unbound hn] using hp2
    · simpa [Env.declare_unbound hn] using hd3
    · simpa [Env.declare_unbound hn, Env.declareAll_append] using hb4
    · simp [FnDecl.strip, Ident.strip, Ident.with_sym_none hn, hs2, hs3, hs4]
    · simpa [Env.declare_unbound hn] using
        hE.of_extends (((he1.trans e2.extends_).trans e3.extends_).trans e4.extends_)
    · simp [hr2, hr3, hr4, NameIssue.code]
  | none =>
    -- the function's symbol is made before its parameters, which are then recorded in it
    have hfree : E.declaresHere f.name.name = false := by rw [← hhere, hfn]; rfl
    obtain ⟨sc1, hdecl, hE1⟩ := hE.declare hfree (.function f.result.name none)
    let name' : Ident := { f.name with sym := some ⟨st.symbols.size⟩ }
    have hE1' : (E.declare name' false).Models sc1
        { st with symbols := st.symbols.push (.function f.result.name none) } := hE1
    obtain ⟨ps', tys, in1, st2, ds2, e2, hp2, hs2, hE2, hr2⟩ :=
      declareParams_lexical f.params hps hE1'.push (hwf.push trivial)
    have hrec : st2.symbols[(⟨st.symbols.size⟩ : SymbolId).index]? = some (.function f.result.name none) := by
      rw [e2.extends_.keeps _ (by simp)]
      simp
    have hwf2 := e2.wellFormed.setFunction hrec (.function f.result.name (some tys)) ⟨_, _, rfl⟩
    obtain ⟨dc', in2, st3, ds3, e3, hd3, hs3, hE3, hr3⟩ :=
      declareVars_lexical f.decls hds (show TypesHeld none none _ from trivial) (hE2.setFunction hrec) hwf2
    obtain ⟨body', st4, ds4, e4, hb4, hs4, hr4⟩ := resolveStmts_lexical f.body hbody hE3 e3.wellFormed
    obtain ⟨g, hg⟩ := Env.declareAll_tail (ps'.map (·.name) ++ dc'.map (·.name)) [] (E.declare name' false)
    have hin : Env.Models (g :: E.declare name' false) in2 st3 := by rwa [← hg, Env.declareAll_append]
    have hpop : in2.pop = .ok sc1 := hE1'.pop hin
    -- the function's binding survives the recording of its parameter types
    have hE4 : (E.declare name' false).Models sc1 st4 :=
      (((hE1'.of_extends e2.extends_).setFunction hrec).of_extends e3.extends_).of_extends e4.extends_
    refine ⟨{ f with name := name', params := ps', decls := dc', body := body' }, sc1, st4,
      ds2 ++ ds3 ++ ds4, ⟨?_, ?_, e4.wellFormed⟩, ⟨by simp [name', hfree], hp2, hd3, ?_⟩, ?_, hE4, ?_⟩
    · simp [declareFn, hloc, hfn, hdecl, exec_bindIdent hn, e2.exec_eq, exec_recordParams hrec, e3.exec_eq,
        e4.exec_eq, hpop, name']
    · have h2 := (Resolution.extends_push st _).trans e2.extends_
      exact ((h2.setIfInBounds (Nat.le_refl _) _).trans e3.extends_).trans e4.extends_
    · simpa [Env.declareAll_append] using hb4
    · simp [FnDecl.strip, name', Ident.strip, Ident.with_sym_none hn, hs2, hs3, hs4]
    · simp [hr2, hr3, hr4]

/-- A struct's name is declared exactly when the program's scope lacks it; its
fields are a scope of their own, their struct types read where the struct stands. -/
theorem declareStruct_lexical {d : StructDecl} (hd : d.Fresh) (hE : E.Models scopes st) (hwf : st.WellFormed) :
    ∃ d' sc' st' ds, (declareStruct scopes d).Ends st (d', sc') st' ds ∧ d'.ScopedIn E ∧ d'.strip = d ∧
      (E.declare d'.name true).Models sc' st' ∧ ds.filter (·.code == "E302") = [] := by
  obtain ⟨hn, hfs⟩ := hd
  obtain ⟨fr, rest, hfr, hloc, hhere⟩ := hE.lookupLocal d.name.name
  cases hfn : fr.find? d.name.name with
  | some _ =>
    -- `E301`: the struct makes no symbol, but its fields are resolved all the same
    have htaken : E.declaresHere d.name.name = true := by rw [← hhere, hfn]; rfl
    have he1 := Resolution.extends_report st .multiplyDeclared d.name.span
    obtain ⟨fs', fsc, st2, ds2, e2, hs2, hd2, -, hr2⟩ := declareVars_lexical d.fields hfs
      (show TypesHeld (some E) (some scopes) _ from hE.of_extends he1) (Env.models_initial _)
      (hwf.report .multiplyDeclared d.name.span)
    refine ⟨{ d with fields := fs' }, scopes, st2, [NameIssue.multiplyDeclared.toDiagnostic d.name.span] ++ ds2,
      ⟨?_, he1.trans e2.extends_, e2.wellFormed⟩, ⟨by simp [hn, htaken], hs2⟩, ?_, ?_, ?_⟩
    · simp [declareStruct, hloc, hfn, e2.exec_eq]
    · simp [StructDecl.strip, Ident.strip, Ident.with_sym_none hn, hd2]
    · simpa [Env.declare_unbound hn] using hE.of_extends (he1.trans e2.extends_)
    · simp [hr2, NameIssue.code]
  | none =>
    have hfree : E.declaresHere d.name.name = false := by rw [← hhere, hfn]; rfl
    obtain ⟨fs', fsc, st2, ds2, e2, hs2, hd2, hF, hr2⟩ := declareVars_lexical d.fields hfs
      (show TypesHeld (some E) (some scopes) st from hE) (Env.models_initial _) hwf
    -- the struct's symbol, made after its fields, holds their scope
    obtain ⟨sc', hdecl, hM⟩ := (hE.of_extends e2.extends_).declare hfree (.structDef fsc)
    refine ⟨{ d with name := { d.name with sym := some ⟨st2.symbols.size⟩ }, fields := fs' }, sc', _, ds2 ++ [],
      ⟨?_, e2.extends_.trans (Resolution.extends_push _ _), e2.wellFormed.push (show st2.Fits (.structDef fsc) from hF.scopes_ne_nil)⟩,
      ⟨by simp [hfree], hs2⟩, ?_, hM, by simp [hr2]⟩
    · simp [declareStruct, hloc, hfn, e2.exec_eq, hdecl, exec_bindIdent hn]
    · simp [StructDecl.strip, Ident.strip, Ident.with_sym_none hn, hd2]

/-- A top-level declaration follows the rules, and the scopes it answers hold the
program's environment after it. -/
theorem declareDecl_lexical {d : Decl} (hd : d.Fresh) (hE : E.Models scopes st) (hwf : st.WellFormed) :
    ∃ d' sc' st' ds, (declareDecl scopes d).Ends st (d', sc') st' ds ∧ d'.ScopedIn E ∧ d'.strip = d ∧
      (d'.declare E).Models sc' st' ∧ ds.filter (·.code == "E302") = undeclaredAt d'.uses := by
  cases d with
  | var d =>
    obtain ⟨d', sc', st', ds, e, hs, hd', hM, hr⟩ := declareVar_lexical hd hE hE hwf
    exact ⟨.var d', sc', st', ds, e.of_exec (by simp [declareDecl, e.exec_eq]), hs,
      by simp [Decl.strip, hd'], hM, by simpa [Decl.uses] using hr⟩
  | fn f =>
    obtain ⟨f', sc', st', ds, e, hs, hf', hM, hr⟩ := declareFn_lexical hd hE hwf
    exact ⟨.fn f', sc', st', ds, e.of_exec (by simp [declareDecl, e.exec_eq]), hs,
      by simp [Decl.strip, hf'], hM, by simpa [Decl.uses] using hr⟩
  | struct d =>
    obtain ⟨d', sc', st', ds, e, hs, hd', hM, hr⟩ := declareStruct_lexical hd hE hwf
    exact ⟨.struct d', sc', st', ds, e.of_exec (by simp [declareDecl, e.exec_eq]), hs,
      by simp [Decl.strip, hd'], hM, by simpa [Decl.uses] using hr⟩

/-- Top-level declarations one after another, each in the environment the ones
before it left. -/
theorem declareDecls_lexical :
    ∀ (ds : List Decl) {E : Env} {scopes : Scopes SymbolId} {st : Resolution}, (∀ d ∈ ds, d.Fresh) →
      E.Models scopes st → st.WellFormed →
      ∃ ds' sc' st' diags, (declareDecls ds scopes).Ends st (ds', sc') st' diags ∧ Decl.AllScopedIn E ds' ∧
        ds'.map Decl.strip = ds ∧ diags.filter (·.code == "E302") = undeclaredAt (ds'.flatMap Decl.uses)
  | [], _, scopes, st, _, _, hwf =>
    ⟨[], scopes, st, [], ⟨by simp [declareDecls], .refl st, hwf⟩, trivial, rfl, rfl⟩
  | d :: ds, _, _, _, hds, hE, hwf => by
    simp only [List.mem_cons, forall_eq_or_imp] at hds
    obtain ⟨d', sc1, st1, diags1, e1, hs1, hd1, hE1, hr1⟩ := declareDecl_lexical hds.1 hE hwf
    obtain ⟨ds', sc2, st2, diags2, e2, hs2, hd2, hr2⟩ := declareDecls_lexical ds hds.2 hE1 e1.wellFormed
    exact ⟨d' :: ds', sc2, st2, diags1 ++ diags2,
      e1.of_exec₂ e2 (by simp [declareDecls, e1.exec_eq, e2.exec_eq]),
      ⟨hs1, hs2⟩, by simp [hd1, hd2], by simp [hr1, hr2]⟩

/-- A fresh program resolves to itself with its names bound by lexical scoping,
and its undeclared-name reports are one per use left unbound. -/
theorem Program.resolve_scoped {p : Program} (hp : p.Fresh) :
    ∃ r, p.resolve = .ok r ∧ r.program.strip = p ∧ r.program.Scoped ∧
      r.diagnostics.filter (·.code == "E302") = undeclaredAt r.program.uses := by
  obtain ⟨ds', sc, st', diags, e, hs, hd, hr⟩ := declareDecls_lexical p.decls hp (Env.models_initial {})
    Resolution.wellFormed_empty
  have hx : (declareDecls p.decls Scopes.initial).run.run {} = (.ok (ds', sc), st') := e.exec_eq
  refine ⟨⟨{ p with decls := ds' }, st'.symbols, st'.diagnostics.toList, sc⟩, by simp [Program.resolve, hx],
    by simp [Program.strip, hd], hs, ?_⟩
  -- resolution starts with no diagnostics, so those of the store are the run's
  have hdiag : st'.diagnostics.toList = diags := by simpa using e.extends_.diagnostics
  simpa [hdiag, Program.uses] using hr

/-- **Resolution follows lexical scoping.** Resolving a program the parser returns
answers that program with its names bound as `Program.Scoped` says: every use to its
innermost visible accepted declaration, every declared name exactly when the rules
accept it, every struct type name to the struct type visible where it stands. Each
use it leaves unbound has one undeclared-name report, at its span, in source order. -/
theorem Program.resolve_lexical {ts : List Token} {eof : Token} {p : Program} (heof : eof.kind = .eof)
    (hp : Program.parse ts eof = .ok p) :
    ∃ r, p.resolve = .ok r ∧ r.program.strip = p ∧ r.program.Scoped ∧
      r.diagnostics.filter (·.code == "E302") = undeclaredAt r.program.uses :=
  Program.resolve_scoped (Program.parse_fresh heof hp)

/-- A local shadowing a global, seen from a nested block, next to a use of a name
declared nowhere. -/
theorem resolve_lexical_shadowing :
    ∃ p, Program.parse (scan "main.egg" "int x; void f(int n) \x7b int x; if (n) \x7b x = n; \x7d y = x; \x7d").tokens
      (scan "main.egg" "int x; void f(int n) \x7b int x; if (n) \x7b x = n; \x7d y = x; \x7d").eof = .ok p ∧
      ∃ r, p.resolve = .ok r ∧ r.program.strip = p ∧ r.program.Scoped ∧
        r.diagnostics.filter (·.code == "E302") = undeclaredAt r.program.uses := by
  have hok : (Program.parse
      (scan "main.egg" "int x; void f(int n) \x7b int x; if (n) \x7b x = n; \x7d y = x; \x7d").tokens
      (scan "main.egg" "int x; void f(int n) \x7b int x; if (n) \x7b x = n; \x7d y = x; \x7d").eof).isOk = true := by
    decide +kernel
  cases hp : Program.parse
      (scan "main.egg" "int x; void f(int n) \x7b int x; if (n) \x7b x = n; \x7d y = x; \x7d").tokens
      (scan "main.egg" "int x; void f(int n) \x7b int x; if (n) \x7b x = n; \x7d y = x; \x7d").eof with
  | error e =>
    rw [hp] at hok
    cases hok
  | ok p => exact ⟨p, rfl, Program.resolve_lexical (by decide +kernel) hp⟩

end Programs

end EggFront
