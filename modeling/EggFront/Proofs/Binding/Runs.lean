import EggFront.Proofs.Binding.Fresh
import EggFront.Binding.Resolve

/-!
# Runs of resolution

Resolution runs in a monad over a store of symbols and diagnostics, and may end
in a fault. `Resolve.exec x st` is the outcome of `x` run from the store `st`
and the store it ends in. Each basic step has a lemma that says what it gives,
and `exec_bind` chains them, so that a resolution function is run symbolically
by `simp` once the runs of the functions it calls are known.

A run that resolves part of a program *extends* its store (`Resolution.Extends`):
it keeps every symbol it found, adds symbols after them, and adds diagnostics
after those there were. A store is well formed when each struct variable names
a struct type of the store and each struct type has a scope for its fields
(`Resolution.WellFormed`): that is what lets a field access find its fields
without a fault.
-/

namespace EggFront

namespace Resolve

variable {α β : Type} {st : Resolution}

/-- The outcome of `x` run from the store `st`, and the store it ends in. -/
def exec (x : Resolve α) (st : Resolution) : Except Fault α × Resolution := x.run.run st

@[simp] theorem exec_pure (a : α) : (pure a : Resolve α).exec st = (.ok a, st) := rfl

@[simp] theorem exec_bind (x : Resolve α) (f : α → Resolve β) :
    (x >>= f).exec st = match x.exec st with
      | (.ok a, s) => (f a).exec s
      | (.error e, s) => (.error e, s) := by
  simp only [exec, bind, ExceptT.bind, ExceptT.run, ExceptT.mk, StateT.run, StateT.bind,
    ExceptT.bindCont]
  cases x st with
  | mk r s => cases r <;> rfl

@[simp] theorem exec_map (f : α → β) (x : Resolve α) :
    (f <$> x).exec st = match x.exec st with
      | (.ok a, s) => (.ok (f a), s)
      | (.error e, s) => (.error e, s) := by
  rw [map_eq_pure_bind, exec_bind]
  rcases x.exec st with ⟨_ | _, _⟩ <;> rfl

@[simp] theorem exec_throw (e : Fault) : (throw e : Resolve α).exec st = (.error e, st) := rfl

@[simp] theorem exec_modify (f : Resolution → Resolution) :
    (modify f : Resolve Unit).exec st = (.ok (), f st) := rfl

@[simp] theorem exec_report (i : NameIssue) (sp : Span) :
    (report i sp).exec st =
      (.ok (), { st with diagnostics := st.diagnostics.push (i.toDiagnostic sp) }) := rfl

@[simp] theorem exec_addSymbol (s : Symbol) :
    (addSymbol s).exec st = (.ok ⟨st.symbols.size⟩, { st with symbols := st.symbols.push s }) := rfl

@[simp] theorem exec_symbol? (id : SymbolId) :
    (symbol? id).exec st = (.ok st.symbols[id.index]?, st) := rfl

@[simp] theorem exec_liftScope_ok (a : α) :
    (liftScope (.ok a : Except ScopeError α)).exec st = (.ok a, st) := rfl

@[simp] theorem exec_bindIdent {i : Ident} (h : i.sym = none) (id : SymbolId) :
    (bindIdent i id).exec st = (.ok { i with sym := some id }, st) := by
  simp only [bindIdent, h]
  rfl

theorem exec_fieldsOf {d : SymbolId} {fs : Scopes SymbolId} (h : st.symbols[d.index]? = some (.structDef fs))
    (t : String) : (fieldsOf d t).exec st = (.ok fs, st) := by
  simp [fieldsOf, h]

theorem exec_recordParams {id : SymbolId} {r : String} (h : st.symbols[id.index]? = some (.function r none))
    (types : List String) :
    (recordParams id types).exec st =
      (.ok (), { st with symbols := st.symbols.setIfInBounds id.index (.function r (some types)) }) := by
  simp [recordParams, h]

end Resolve

open Resolve

/-! ## Stores -/

namespace Resolution

variable {st st' st'' : Resolution} {ds ds' : List Diagnostic}

/-- The symbol `d` is a struct type of the store. -/
def IsStruct (st : Resolution) (d : SymbolId) : Prop :=
  ∃ fs, st.symbols[d.index]? = some (.structDef fs)

/-- What resolution keeps true of its store: each struct variable names a struct
type of the store, and each struct type has a scope for its fields. -/
structure WellFormed (st : Resolution) : Prop where
  structVar : ∀ (i : Nat) t d, st.symbols[i]? = some (.structVar t d) → st.IsStruct d
  structDef : ∀ (i : Nat) fs, st.symbols[i]? = some (.structDef fs) → fs.frames ≠ []

/-- `st'` keeps every symbol of `st`, and adds the diagnostics `ds` after those of `st`. -/
structure Extends (st st' : Resolution) (ds : List Diagnostic) : Prop where
  size_le : st.symbols.size ≤ st'.symbols.size
  keeps : ∀ i < st.symbols.size, st'.symbols[i]? = st.symbols[i]?
  diagnostics : st'.diagnostics.toList = st.diagnostics.toList ++ ds

theorem Extends.refl (st : Resolution) : st.Extends st [] :=
  ⟨Nat.le_refl _, fun _ _ => rfl, by simp⟩

theorem Extends.trans (h : st.Extends st' ds) (h' : st'.Extends st'' ds') :
    st.Extends st'' (ds ++ ds') := by
  refine ⟨Nat.le_trans h.size_le h'.size_le, fun i hi => ?_, ?_⟩
  · rw [h'.keeps i (Nat.lt_of_lt_of_le hi h.size_le), h.keeps i hi]
  · rw [h'.diagnostics, h.diagnostics, List.append_assoc]

theorem extends_report (st : Resolution) (i : NameIssue) (sp : Span) :
    st.Extends { st with diagnostics := st.diagnostics.push (i.toDiagnostic sp) } [i.toDiagnostic sp] :=
  ⟨Nat.le_refl _, fun _ _ => rfl, by simp⟩

/-- A store that only gained diagnostics extends the one before. -/
theorem extends_of_symbols_eq (hs : st'.symbols = st.symbols)
    (hd : st'.diagnostics.toList = st.diagnostics.toList ++ ds) : st.Extends st' ds :=
  ⟨Nat.le_of_eq (by rw [hs]), fun _ _ => by rw [hs], hd⟩

theorem extends_push (st : Resolution) (s : Symbol) :
    st.Extends { st with symbols := st.symbols.push s } [] := by
  refine ⟨by simp, fun i hi => ?_, by simp⟩
  simp [Array.getElem?_push, Nat.ne_of_lt hi]

/-- Changing a symbol made after `st` keeps `st`'s. -/
theorem Extends.setIfInBounds (h : st.Extends st' ds) {k : Nat} (hk : st.symbols.size ≤ k)
    (s : Symbol) : st.Extends { st' with symbols := st'.symbols.setIfInBounds k s } ds := by
  refine ⟨by simpa using h.size_le, fun i hi => ?_, h.diagnostics⟩
  dsimp only
  rw [Array.getElem?_setIfInBounds_ne (Nat.ne_of_gt (Nat.lt_of_lt_of_le hi hk)), h.keeps i hi]

theorem IsStruct.of_extends {d : SymbolId} (hd : st.IsStruct d) (h : st.Extends st' ds) :
    st'.IsStruct d := by
  obtain ⟨fs, hfs⟩ := hd
  have hlt : d.index < st.symbols.size := (Array.getElem?_eq_some_iff.1 hfs).1
  exact ⟨fs, (h.keeps _ hlt).trans hfs⟩

theorem WellFormed.of_symbols_eq (h : st.WellFormed) (hs : st'.symbols = st.symbols) :
    st'.WellFormed := by
  refine ⟨fun i t d hi => ?_, fun i fs hi => h.structDef i fs (hs ▸ hi)⟩
  obtain ⟨fs, hfs⟩ := h.structVar i t d (hs ▸ hi)
  exact ⟨fs, hs ▸ hfs⟩

theorem WellFormed.report (h : st.WellFormed) (i : NameIssue) (sp : Span) :
    WellFormed { st with diagnostics := st.diagnostics.push (i.toDiagnostic sp) } :=
  ⟨h.structVar, h.structDef⟩

/-- Resolution starts from the empty store. -/
theorem wellFormed_empty : WellFormed {} :=
  ⟨fun _ _ _ h => by simp at h, fun _ _ h => by simp at h⟩

/-- A symbol may be added when it is no struct variable or struct type, or names a
struct type of the store, or has a scope for its fields. -/
def Fits (st : Resolution) : Symbol → Prop
  | .structVar _ d => st.IsStruct d
  | .structDef fs => fs.frames ≠ []
  | _ => True

theorem WellFormed.push (h : st.WellFormed) {s : Symbol} (hs : st.Fits s) :
    WellFormed { st with symbols := st.symbols.push s } := by
  have hext := extends_push st s
  constructor
  · intro i t d hi
    rw [Array.getElem?_push] at hi
    split at hi
    · cases hi
      exact IsStruct.of_extends hs hext
    · exact IsStruct.of_extends (h.structVar i t d hi) hext
  · intro i fs hi
    rw [Array.getElem?_push] at hi
    split at hi
    · cases hi
      exact hs
    · exact h.structDef i fs hi

/-- Recording a function's parameter types keeps a store well formed. -/
theorem WellFormed.setFunction (h : st.WellFormed) {k : Nat} {r : String}
    {ps : Option (List String)} (hk : st.symbols[k]? = some (.function r ps)) (s : Symbol)
    (hs : ∃ r' ps', s = .function r' ps') :
    WellFormed { st with symbols := st.symbols.setIfInBounds k s } := by
  obtain ⟨r', ps', rfl⟩ := hs
  have keep : ∀ (j : Nat) (e : Symbol), (st.symbols.setIfInBounds k (.function r' ps'))[j]? = some e →
      (∀ r₀ ps₀, e ≠ .function r₀ ps₀) → st.symbols[j]? = some e := by
    intro j e hj he
    by_cases hkj : k = j
    · subst hkj
      have hlt : k < st.symbols.size := (Array.getElem?_eq_some_iff.1 hk).1
      simp only [Array.getElem?_setIfInBounds_self_of_lt hlt, Option.some.injEq] at hj
      exact absurd hj.symm (he r' ps')
    · rwa [Array.getElem?_setIfInBounds_ne hkj] at hj
  constructor
  · intro i t d hi
    obtain ⟨fs, hfs⟩ := h.structVar i t d (keep i _ hi (fun _ _ h => by cases h))
    refine ⟨fs, ?_⟩
    have hne : k ≠ d.index := by
      rintro rfl
      rw [hk] at hfs
      cases hfs
    rwa [Array.getElem?_setIfInBounds_ne hne]
  · intro i fs hi
    exact h.structDef i fs (keep i _ hi (fun _ _ h => by cases h))

end Resolution

end EggFront
