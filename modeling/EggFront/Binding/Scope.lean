/-!
# Scopes

A scope stack maps names to what they are bound to, scope by scope. It is a
list of frames, innermost first; a frame lists its names in the order they were
declared. A new stack has one empty frame.

* `declare` adds a name to the innermost frame; a name already there is refused.
* `lookupLocal` reads the innermost frame only; `lookup` reads every frame from
  the innermost outward, so an inner declaration hides an outer one.
* `push` adds an empty innermost frame and `pop` removes it.

Every operation but `push` and `depth` needs a frame and fails on an empty stack.
-/

namespace EggFront

/-- The names of one scope, in declaration order, with what they are bound to. -/
structure Frame (α : Type) where
  entries : List (String × α) := []
deriving Repr, Inhabited

namespace Frame

variable {α : Type}

/-- What `name` is bound to in this frame. -/
def find? (f : Frame α) (name : String) : Option α :=
  (f.entries.find? (·.1 == name)).map (·.2)

/-- The frame with `name` added last. -/
def add (f : Frame α) (name : String) (a : α) : Frame α :=
  ⟨f.entries ++ [(name, a)]⟩

@[simp] theorem find?_empty (name : String) : ({} : Frame α).find? name = none := rfl

/-- A name added to a frame that lacks it is bound to its symbol, and the other
names keep theirs. -/
theorem find?_add {f : Frame α} {name : String} (h : f.find? name = none) (a : α) (m : String) :
    (f.add name a).find? m = if m = name then some a else f.find? m := by
  by_cases hm : m = name
  · subst hm
    simp only [find?, Option.map_eq_none_iff] at h
    simp [find?, add, List.find?_append, h]
  · cases hf : f.entries.find? (·.1 == m) with
    | some e => simp [find?, add, List.find?_append, hf, hm]
    | none =>
      have hne : (name == m) = false := by simp [Ne.symm hm]
      simp [find?, add, List.find?_append, hf, hne, hm]

end Frame

/-- Why a scope operation failed. -/
inductive ScopeError where
  /-- The stack has no frame. -/
  | noScope
  /-- The name is already declared in the innermost frame. -/
  | duplicate (name : String)
deriving DecidableEq, Repr

def ScopeError.message : ScopeError → String
  | .noScope => "symbol table has no scopes"
  | .duplicate n => "'" ++ n ++ "' is already declared in the current scope"

/-- The class of the exception the table raises. -/
def ScopeError.className : ScopeError → String
  | .noScope => "EmptyScopeStackError"
  | .duplicate _ => "DuplicateDeclarationError"

/-- A stack of scopes, innermost first. -/
structure Scopes (α : Type) where
  frames : List (Frame α)
deriving Repr, Inhabited

namespace Scopes

variable {α : Type}

/-- A new stack: one empty scope. -/
def initial : Scopes α := ⟨[{}]⟩

def depth (s : Scopes α) : Nat := s.frames.length

/-- The stack with a new, empty innermost scope. -/
def push (s : Scopes α) : Scopes α := ⟨{} :: s.frames⟩

/-- The stack without its innermost scope. -/
def pop (s : Scopes α) : Except ScopeError (Scopes α) :=
  match s.frames with
  | _ :: rest => .ok ⟨rest⟩
  | [] => .error .noScope

/-- What `name` is bound to in the innermost scope. -/
def lookupLocal (s : Scopes α) (name : String) : Except ScopeError (Option α) :=
  match s.frames with
  | f :: _ => .ok (f.find? name)
  | [] => .error .noScope

/-- What `name` is bound to in the first scope, innermost first, that has it. -/
def find? (frames : List (Frame α)) (name : String) : Option α :=
  match frames with
  | [] => none
  | f :: rest => (f.find? name).or (find? rest name)

/-- What `name` is bound to in the innermost scope that declares it. -/
def lookup (s : Scopes α) (name : String) : Except ScopeError (Option α) :=
  if s.frames.isEmpty then .error .noScope else .ok (find? s.frames name)

/-- The stack with `name` bound to `a` in the innermost scope. -/
def declare (s : Scopes α) (name : String) (a : α) : Except ScopeError (Scopes α) :=
  match s.frames with
  | f :: rest =>
    if (f.find? name).isSome then .error (.duplicate name) else .ok ⟨f.add name a :: rest⟩
  | [] => .error .noScope

/-- Every name of every scope with its binding, outermost scope first and each
scope in declaration order. -/
def entries (s : Scopes α) : List (String × α) :=
  s.frames.reverse.flatMap (·.entries)

variable {s : Scopes α} {f : Frame α} {rest : List (Frame α)}

theorem pop_cons (h : s.frames = f :: rest) : s.pop = .ok ⟨rest⟩ := by
  simp [pop, h]

theorem lookupLocal_cons (h : s.frames = f :: rest) (name : String) :
    s.lookupLocal name = .ok (f.find? name) := by
  simp [lookupLocal, h]

theorem lookup_of_ne_nil (h : s.frames ≠ []) (name : String) :
    s.lookup name = .ok (find? s.frames name) := by
  simp [lookup, h]

theorem declare_cons (h : s.frames = f :: rest) {name : String} (hn : f.find? name = none) (a : α) :
    s.declare name a = .ok ⟨f.add name a :: rest⟩ := by
  simp [declare, h, hn]

@[simp] theorem depth_push (s : Scopes α) : s.push.depth = s.depth + 1 := rfl

@[simp] theorem depth_initial : (initial : Scopes α).depth = 1 := rfl

end Scopes

end EggFront
