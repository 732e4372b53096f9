import EggFront.Binding.Session
import Mathlib.Logic.Function.Basic

/-!
# The scope stack is a stack of maps

The plain model of scoping is a list of finite maps from names, innermost first,
starting from one empty map (`ScopeMaps`): a lookup in the innermost scope reads
the first map, a lookup in every scope takes the entry of the first map that has
the name, a declaration extends the first map and is refused when the name is
already there, and every operation but `push` and `depth` is refused on an empty
list.

A `Scopes` stack keeps each scope as a list of entries in declaration order.
Seen through `Scopes.view`, which keeps of each frame only what it binds each
name to, every operation is the model's (`Scopes.perform_view`), so a client
that runs any sequence of operations from a new stack, keeping the stack as it
was whenever an operation is refused, gets the model's answers
(`Scopes.runOps_view`).

Sessions record the parameter types of a function once: the first request on a
function without them succeeds, and once recorded they stay recorded under every
request (`Session.step_keeps_recorded`, from `Session.step_entries`, which says
once what a request can do to the symbols), so every later request is refused.
`scopeTable_refines_maps` gathers both.
-/

namespace EggFront

/-! ## The model -/

namespace ScopeMaps

variable {α : Type}

/-- A new model stack: one empty map. -/
def initial : List (String → Option α) := [fun _ => none]

/-- A new empty innermost map. -/
def push (ms : List (String → Option α)) : List (String → Option α) := (fun _ => none) :: ms

/-- The list without its innermost map. -/
def pop : List (String → Option α) → Except ScopeError (List (String → Option α))
  | [] => .error .noScope
  | _ :: rest => .ok rest

/-- What the innermost map binds `name` to. -/
def lookupLocal : List (String → Option α) → String → Except ScopeError (Option α)
  | [], _ => .error .noScope
  | m :: _, name => .ok (m name)

/-- The entry for `name` of the innermost map that has one. -/
def lookup : List (String → Option α) → String → Except ScopeError (Option α)
  | [], _ => .error .noScope
  | m :: rest, name => .ok ((m :: rest).findSome? (· name))

/-- The innermost map extended by `name ↦ a`, refused when it has `name` already. -/
def declare : List (String → Option α) → String → α → Except ScopeError (List (String → Option α))
  | [], _, _ => .error .noScope
  | m :: rest, name, a =>
    if (m name).isSome then .error (.duplicate name) else .ok (Function.update m name (some a) :: rest)

end ScopeMaps

/-! ## Operations and runs -/

/-- An operation on a scope stack, as a client asks for it. -/
inductive ScopeOp (α : Type) where
  | push
  | pop
  | declare (name : String) (a : α)
  | lookupLocal (name : String)
  | lookup (name : String)
  | depth

/-- What an operation that is not refused answers. -/
inductive ScopeAnswer (α : Type) where
  | done
  | found (a : Option α)
  | depth (n : Nat)

/-- Runs operations one after another from the state `s`. A refused operation
answers its error and leaves the state as it was, as an operation on a table
that checks before it changes anything. -/
def runOps {σ ω ε ρ : Type} (step : σ → ω → Except ε (ρ × σ)) : σ → List ω → List (Except ε ρ)
  | _, [] => []
  | s, o :: os =>
    match step s o with
    | .ok (r, s') => .ok r :: runOps step s' os
    | .error e => .error e :: runOps step s os

/-- If a step of one machine, seen through `f`, is always a step of another,
their runs answer alike. -/
theorem runOps_simulate {σ τ ω ε ρ : Type} {step : σ → ω → Except ε (ρ × σ)}
    {step' : τ → ω → Except ε (ρ × τ)} (f : σ → τ)
    (hstep : ∀ s o, (step s o).map (fun p => (p.1, f p.2)) = step' (f s) o) (s : σ) (os : List ω) :
    runOps step s os = runOps step' (f s) os := by
  induction os generalizing s with
  | nil => rfl
  | cons o os ih =>
    have h := hstep s o
    cases hs : step s o with
    | ok p =>
      rw [hs] at h
      simp only [runOps, hs, ← h, Except.map]
      rw [ih]
    | error e =>
      rw [hs] at h
      simp only [runOps, hs, ← h, Except.map]
      rw [ih]

namespace Scopes

variable {α : Type}

/-- One operation on a stack. -/
def perform (s : Scopes α) : ScopeOp α → Except ScopeError (ScopeAnswer α × Scopes α)
  | .push => .ok (.done, s.push)
  | .pop => s.pop.map fun s' => (.done, s')
  | .declare name a => (s.declare name a).map fun s' => (.done, s')
  | .lookupLocal name => (s.lookupLocal name).map fun r => (.found r, s)
  | .lookup name => (s.lookup name).map fun r => (.found r, s)
  | .depth => .ok (.depth s.depth, s)

end Scopes

namespace ScopeMaps

variable {α : Type}

/-- One operation on the model. -/
def perform (ms : List (String → Option α)) : ScopeOp α →
    Except ScopeError (ScopeAnswer α × List (String → Option α))
  | .push => .ok (.done, push ms)
  | .pop => (pop ms).map fun ms' => (.done, ms')
  | .declare name a => (declare ms name a).map fun ms' => (.done, ms')
  | .lookupLocal name => (lookupLocal ms name).map fun r => (.found r, ms)
  | .lookup name => (lookup ms name).map fun r => (.found r, ms)
  | .depth => .ok (.depth ms.length, ms)

end ScopeMaps

/-! ## The view -/

namespace Scopes

variable {α : Type}

/-- What each scope binds each name to, innermost first. -/
def view (s : Scopes α) : List (String → Option α) := s.frames.map Frame.find?

@[simp] theorem view_initial : (initial : Scopes α).view = ScopeMaps.initial := by
  simp only [view, initial, List.map_cons, List.map_nil, ScopeMaps.initial]
  rfl

@[simp] theorem view_push (s : Scopes α) : s.push.view = ScopeMaps.push s.view := by
  simp only [view, push, List.map_cons, ScopeMaps.push]
  rfl

theorem depth_eq_length_view (s : Scopes α) : s.depth = s.view.length := by
  simp [depth, view]

theorem find?_eq_findSome? (frames : List (Frame α)) (name : String) :
    find? frames name = (frames.map Frame.find?).findSome? (· name) := by
  induction frames with
  | nil => rfl
  | cons f rest ih =>
    cases hf : f.find? name with
    | none => simp [find?, hf, ih]
    | some a => simp [find?, hf]

theorem pop_view (s : Scopes α) : s.pop.map view = ScopeMaps.pop s.view := by
  obtain ⟨frames⟩ := s
  cases frames <;> rfl

theorem lookupLocal_eq (s : Scopes α) (name : String) :
    s.lookupLocal name = ScopeMaps.lookupLocal s.view name := by
  obtain ⟨frames⟩ := s
  cases frames <;> rfl

theorem lookup_eq (s : Scopes α) (name : String) :
    s.lookup name = ScopeMaps.lookup s.view name := by
  obtain ⟨frames⟩ := s
  cases frames with
  | nil => rfl
  | cons f rest =>
    simp only [lookup, List.isEmpty_cons, Bool.false_eq_true, ↓reduceIte, view, List.map_cons,
      ScopeMaps.lookup, find?_eq_findSome?]

theorem declare_view (s : Scopes α) (name : String) (a : α) :
    (s.declare name a).map view = ScopeMaps.declare s.view name a := by
  obtain ⟨frames⟩ := s
  cases frames with
  | nil => rfl
  | cons f rest =>
    simp only [declare, view, List.map_cons, ScopeMaps.declare]
    cases hf : f.find? name with
    | some b => rfl
    | none =>
      simp only [Option.isSome_none, Bool.false_eq_true, ↓reduceIte, Except.map, view,
        List.map_cons, Except.ok.injEq, List.cons.injEq, and_true]
      funext m
      rw [Frame.find?_add hf, Function.update_apply]

/-- **One operation on a stack is the model's operation on its view.** -/
theorem perform_view (s : Scopes α) (o : ScopeOp α) :
    (s.perform o).map (fun p => (p.1, p.2.view)) = ScopeMaps.perform s.view o := by
  cases o with
  | push => simp [perform, ScopeMaps.perform, Except.map]
  | pop =>
    rw [perform, ScopeMaps.perform, ← pop_view]
    cases s.pop <;> rfl
  | declare name a =>
    rw [perform, ScopeMaps.perform, ← declare_view]
    cases s.declare name a <;> rfl
  | lookupLocal name =>
    rw [perform, ScopeMaps.perform, lookupLocal_eq]
    cases ScopeMaps.lookupLocal s.view name <;> rfl
  | lookup name =>
    rw [perform, ScopeMaps.perform, lookup_eq]
    cases ScopeMaps.lookup s.view name <;> rfl
  | depth => simp [perform, ScopeMaps.perform, Except.map, depth_eq_length_view]

/-- Any sequence of operations run on a stack answers as it does on the stack's view. -/
theorem runOps_view (s : Scopes α) (os : List (ScopeOp α)) :
    runOps perform s os = runOps ScopeMaps.perform s.view os :=
  runOps_simulate view perform_view s os

end Scopes


theorem Except.bind_eq_ok {ε α β : Type} {x : Except ε α} {f : α → Except ε β} {b : β} :
    x >>= f = .ok b ↔ ∃ a, x = .ok a ∧ f a = .ok b := by
  cases x <;> simp [bind, Except.bind]

namespace Session

variable {s s' : Session} {id : Int} {i : Nat}

theorem entry_eq_ok {e : Entry} :
    s.entry id = .ok e ↔ ∃ i, s.place id = .ok i ∧ s.entries[i]? = some e := by
  unfold entry
  rw [Except.bind_eq_ok]
  constructor
  · rintro ⟨i, hi, he⟩
    refine ⟨i, hi, ?_⟩
    split at he <;> simp_all
  · rintro ⟨i, hi, he⟩
    exact ⟨i, hi, by simp [he]⟩

theorem fieldsOf_eq_ok {fs : Scopes Nat} : s.fieldsOf id = .ok fs ↔ s.entry id = .ok (.structDef fs) := by
  unfold fieldsOf
  rw [Except.bind_eq_ok]
  constructor
  · rintro ⟨e, he, hfs⟩
    split at hfs <;> simp_all
  · intro h
    exact ⟨_, h, rfl⟩

/-- What a request can do to the symbols made so far: nothing, make one more,
record a function's parameter types, or give a struct type new fields. -/
theorem step_entries {q : Request} {rep : Reply} (h : s.step q = .ok (rep, s')) :
    s'.entries = s.entries ∨ (∃ e, s'.entries = s.entries.push e) ∨
      (∃ j r ps, s.entries[j]? = some (.function r none) ∧
        s'.entries = s.entries.setIfInBounds j (.function r (some ps))) ∨
      (∃ j fs fs', s.entries[j]? = some (.structDef fs) ∧
        s'.entries = s.entries.setIfInBounds j (.structDef fs')) := by
  cases q with
  | new spec =>
    obtain ⟨e, -, h⟩ := Except.bind_eq_ok.1 h
    cases h
    exact .inr (.inl ⟨e, rfl⟩)
  | addParams id ps =>
    obtain ⟨j, hj, h⟩ := Except.bind_eq_ok.1 h
    obtain ⟨e, he, h⟩ := Except.bind_eq_ok.1 h
    obtain ⟨j', hj', hget⟩ := entry_eq_ok.1 he
    rw [hj] at hj'
    cases hj'
    split at h
    · cases h
      exact .inr (.inr (.inl ⟨j, _, ps, hget, rfl⟩))
    all_goals cases h
  | fieldAdd id name field =>
    obtain ⟨j, hj, h⟩ := Except.bind_eq_ok.1 h
    obtain ⟨fs, hfs, h⟩ := Except.bind_eq_ok.1 h
    obtain ⟨f, -, h⟩ := Except.bind_eq_ok.1 h
    obtain ⟨fs', -, h⟩ := Except.bind_eq_ok.1 h
    obtain ⟨j', hj', hget⟩ := entry_eq_ok.1 (fieldsOf_eq_ok.1 hfs)
    rw [hj] at hj'
    cases hj'
    cases h
    exact .inr (.inr (.inr ⟨j, fs, fs', hget, rfl⟩))
  | add name id =>
    obtain ⟨j, -, h⟩ := Except.bind_eq_ok.1 h
    obtain ⟨sc, -, h⟩ := Except.bind_eq_ok.1 h
    cases h
    exact .inl rfl
  | pop =>
    obtain ⟨sc, -, h⟩ := Except.bind_eq_ok.1 h
    cases h
    exact .inl rfl
  | push | depth =>
    cases h
    exact .inl rfl
  | lookupLocal name | lookupGlobal name =>
    obtain ⟨x, -, h⟩ := Except.bind_eq_ok.1 h
    cases h
    exact .inl rfl
  | fieldLookup id name | describe id =>
    obtain ⟨x, -, h⟩ := Except.bind_eq_ok.1 h
    obtain ⟨y, -, h⟩ := Except.bind_eq_ok.1 h
    cases h
    exact .inl rfl

variable {r : String} {ps qs : List String}

/-- Recording parameter types on a function that has none succeeds, and records them. -/
theorem step_addParams_unrecorded (hi : s.place id = .ok i)
    (he : s.entries[i]? = some (.function r none)) :
    s.step (.addParams id ps) =
      .ok (.done, { s with entries := s.entries.setIfInBounds i (.function r (some ps)) }) := by
  have hentry : s.entry id = .ok (.function r none) := entry_eq_ok.2 ⟨i, hi, he⟩
  simp [step, bind, Except.bind, hi, hentry, pure, Except.pure]

/-- Recording parameter types on a function that has them is refused. -/
theorem step_addParams_recorded (hi : s.place id = .ok i)
    (he : s.entries[i]? = some (.function r (some qs))) :
    s.step (.addParams id ps) = .error .paramsRecorded := by
  have hentry : s.entry id = .ok (.function r (some qs)) := entry_eq_ok.2 ⟨i, hi, he⟩
  simp [step, bind, Except.bind, hi, hentry]

theorem step_addParams_ok_iff :
    (∃ rep s', s.step (.addParams id ps) = .ok (rep, s')) ↔
      ∃ i r, s.place id = .ok i ∧ s.entries[i]? = some (.function r none) := by
  constructor
  · rintro ⟨rep, s', h⟩
    obtain ⟨j, hj, h⟩ := Except.bind_eq_ok.1 h
    obtain ⟨e, he, h⟩ := Except.bind_eq_ok.1 h
    obtain ⟨j', hj', hget⟩ := entry_eq_ok.1 he
    rw [hj] at hj'
    cases hj'
    split at h
    · exact ⟨j, _, hj, hget⟩
    all_goals cases h
  · rintro ⟨i, r, hi, he⟩
    exact ⟨_, _, step_addParams_unrecorded hi he⟩

/-- Recorded parameter types stay recorded under every request. -/
theorem step_keeps_recorded {q : Request} {rep : Reply}
    (he : s.entries[i]? = some (.function r (some qs))) (h : s.step q = .ok (rep, s')) :
    s'.entries[i]? = some (.function r (some qs)) := by
  have hi : i < s.entries.size := (Array.getElem?_eq_some_iff.1 he).1
  rcases step_entries h with hs | ⟨e, hs⟩ | ⟨j, r', ps', hj, hs⟩ | ⟨j, fs, fs', hj, hs⟩
  · rwa [hs]
  · rw [hs, Array.getElem?_push, if_neg (Nat.ne_of_lt hi)]
    exact he
  · -- the request recorded the types of a function that had none: another one
    have hji : j ≠ i := by
      rintro rfl
      rw [he] at hj
      cases hj
    rw [hs, Array.getElem?_setIfInBounds_ne hji]
    exact he
  · have hji : j ≠ i := by
      rintro rfl
      rw [he] at hj
      cases hj
    rw [hs, Array.getElem?_setIfInBounds_ne hji]
    exact he

end Session



/-- **The scope stack refines the stack of maps.** Every sequence of operations
run from a new stack answers as it does on the model, a refused operation
leaving the stack as it was. A session records a function's parameter types
exactly once: the request succeeds exactly on a function without recorded
types and records them, a request on recorded types is refused, and recorded
types stay recorded under every request. -/
theorem scopeTable_refines_maps :
    (∀ {α : Type} (os : List (ScopeOp α)),
      runOps Scopes.perform Scopes.initial os = runOps ScopeMaps.perform ScopeMaps.initial os) ∧
    (∀ (s : Session) (id : Int) (ps : List String),
      (∃ rep s', s.step (.addParams id ps) = .ok (rep, s')) ↔
        ∃ i r, s.place id = .ok i ∧ s.entries[i]? = some (.function r none)) ∧
    (∀ (s : Session) (id : Int) (i : Nat) (r : String) (ps : List String),
      s.place id = .ok i → s.entries[i]? = some (.function r none) →
      ∃ s', s.step (.addParams id ps) = .ok (.done, s') ∧
        s'.entries[i]? = some (.function r (some ps))) ∧
    (∀ (s : Session) (id : Int) (i : Nat) (r : String) (ps qs : List String),
      s.place id = .ok i → s.entries[i]? = some (.function r (some qs)) →
      s.step (.addParams id ps) = .error .paramsRecorded) ∧
    (∀ (s s' : Session) (q : Request) (rep : Reply) (i : Nat) (r : String) (qs : List String),
      s.entries[i]? = some (.function r (some qs)) → s.step q = .ok (rep, s') →
      s'.entries[i]? = some (.function r (some qs))) := by
  refine ⟨fun os => ?_, fun s id ps => Session.step_addParams_ok_iff,
    fun s id i r ps hi he => ?_, fun s id i r ps qs hi he => Session.step_addParams_recorded hi he,
    fun s s' q rep i r qs he h => Session.step_keeps_recorded he h⟩
  · rw [Scopes.runOps_view, Scopes.view_initial]
  · refine ⟨_, Session.step_addParams_unrecorded hi he, ?_⟩
    have hlt : i < s.entries.size := (Array.getElem?_eq_some_iff.1 he).1
    simp [hlt]

end EggFront
