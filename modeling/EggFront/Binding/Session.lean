import EggFront.Binding.Scope
import EggFront.Binding.Symbol

/-!
# Symbol table sessions

A session drives one scope stack by requests, as a client of the table would:
it makes symbols (numbered 0, 1, … as they are made), declares them under names,
opens and closes scopes, looks names up, and asks how symbols describe
themselves. Each request gets a reply, or an error that leaves the session as it
was, and the session goes on with the next request.

A request names a symbol by its place in the list of symbols made so far,
counting from the front from 0, or from the back from -1; a place outside the
list fails the request, and so does an id outside the signed 64-bit range,
which cannot be a place at all.

Symbols here are looser than the ones resolution makes: a function's parameter
types are recorded at most once, after it is made, and a struct variable's type
name may be bound to any symbol, or to none; describing such a variable needs
its type bound to a struct type.
-/

namespace EggFront

/-- A symbol made in a session. -/
inductive Entry where
  | var (type : String)
  /-- `params` is `none` until the parameter types are recorded. -/
  | function (result : String) (params : Option (List String))
  | structDef (fields : Scopes Nat)
  | structVar (typeName : String) (boundTo : Option Nat)

/-- What a request asks to make. -/
inductive EntrySpec where
  | var (type : String)
  | function (result : String) (params : Option (List String))
  | structDef
  | structVar (typeName : String) (boundTo : Option Int)

/-- A request to a session. -/
inductive Request where
  | new (spec : EntrySpec)
  | add (name : String) (id : Int)
  | push
  | pop
  | depth
  | lookupLocal (name : String)
  | lookupGlobal (name : String)
  | addParams (id : Int) (params : List String)
  | describe (id : Int)
  | fieldAdd (id : Int) (name : String) (field : Int)
  | fieldLookup (id : Int) (name : String)

/-- How a symbol describes itself. -/
structure Description where
  kind : String
  typeName : String
  text : String
  paramTypes : Option (List String) := none
  definition : Option Nat := none

/-- The reply to a request. -/
inductive Reply where
  | created (id : Nat)
  | done
  | found (id : Option Nat)
  | described (d : Description)

/-- Why a request failed. -/
inductive SessionError where
  | scope (e : ScopeError)
  | paramsRecorded
  | unresolvedStruct (typeName : String)
  | noSymbol (id : Int)
  /-- The id lies outside the signed 64-bit range that places are counted in. -/
  | unindexable (id : Int)
  /-- The symbol is of the wrong kind for the request. -/
  | wrongKind (e : Entry) (wanted : String)

/-- The class of a symbol, as the errors of requests name it. -/
def Entry.className : Entry → String
  | .var _ => "VariableSymbol"
  | .function .. => "FunctionSymbol"
  | .structDef _ => "StructDefinitionSymbol"
  | .structVar .. => "StructInstanceSymbol"

namespace SessionError

/-- The class of the exception a failed request raises. A place outside the list
fails as indexing the list does. -/
def className : SessionError → String
  | .scope e => e.className
  | .paramsRecorded | .unresolvedStruct _ => "InternalError"
  | .noSymbol _ | .unindexable _ => "IndexError"
  | .wrongKind .. => "AttributeError"

/-- What the exception says: the table's and the symbols' own texts, and for the
other errors the texts of indexing a list and of asking an object for an
attribute it lacks. -/
def message : SessionError → String
  | .scope e => e.message
  | .paramsRecorded => Symbol.paramsRecordedText
  | .unresolvedStruct t => Symbol.unresolvedStructText t
  | .noSymbol _ => "list index out of range"
  | .unindexable _ => "cannot fit 'int' into an index-sized integer"
  | .wrongKind e wanted => "'" ++ e.className ++ "' object has no attribute '" ++ wanted ++ "'"

end SessionError

/-- A session: the scope stack and the symbols made so far. -/
structure Session where
  scopes : Scopes Nat := Scopes.initial
  entries : Array Entry := #[]

namespace Session

/-- The place in the list of symbols that `id` names: from the front when it is
at least 0, from the back when it is negative. -/
def place (s : Session) (id : Int) : Except SessionError Nat :=
  if id < -(Int.pow 2 63) ∨ Int.pow 2 63 ≤ id then .error (.unindexable id)
  else
    let i := if id < 0 then id + s.entries.size else id
    if 0 ≤ i ∧ i < s.entries.size then .ok i.toNat else .error (.noSymbol id)

def entry (s : Session) (id : Int) : Except SessionError Entry := do
  let i ← s.place id
  match s.entries[i]? with
  | some e => .ok e
  | none => .error (.noSymbol id)

/-- The symbol a request asks for; a struct variable's type is bound to the
symbol at the place it names, which must exist. -/
def make (s : Session) : EntrySpec → Except SessionError Entry
  | .var t => .ok (.var t)
  | .function r ps => .ok (.function r ps)
  | .structDef => .ok (.structDef Scopes.initial)
  | .structVar t none => .ok (.structVar t none)
  | .structVar t (some b) => do return .structVar t (some (← s.place b))

def describeEntry (s : Session) : Entry → Except SessionError Description
  | .var t => .ok ⟨"VARIABLE", t, t, none, none⟩
  | .function r ps =>
    .ok ⟨"FUNCTION", "function", Symbol.signature r (ps.getD []), some (ps.getD []), none⟩
  | .structDef _ => .ok ⟨"STRUCT_DEFINITION", "struct", "struct", none, none⟩
  | .structVar t b =>
    match b.bind (fun i => s.entries[i]?) with
    | some (.structDef _) => .ok ⟨"STRUCT_INSTANCE", t, t, none, b⟩
    | _ => .error (.unresolvedStruct t)

def fieldsOf (s : Session) (id : Int) : Except SessionError (Scopes Nat) := do
  match ← s.entry id with
  | .structDef fs => .ok fs
  | e => .error (.wrongKind e "fields")

def liftScope {α : Type} (x : Except ScopeError α) : Except SessionError α :=
  x.mapError .scope

/-- Answers one request: the reply and the session after it, or an error and the
session unchanged. -/
def step (s : Session) : Request → Except SessionError (Reply × Session)
  | .new spec => do
    let e ← s.make spec
    return (.created s.entries.size, { s with entries := s.entries.push e })
  | .add name id => do
    let i ← s.place id
    let scopes ← liftScope (s.scopes.declare name i)
    return (.done, { s with scopes })
  | .push => .ok (.done, { s with scopes := s.scopes.push })
  | .pop => do
    let scopes ← liftScope s.scopes.pop
    return (.done, { s with scopes })
  | .depth => .ok (.done, s)
  | .lookupLocal name => do return (.found (← liftScope (s.scopes.lookupLocal name)), s)
  | .lookupGlobal name => do return (.found (← liftScope (s.scopes.lookup name)), s)
  | .addParams id params => do
    let i ← s.place id
    match ← s.entry id with
    | .function r none =>
      return (.done, { s with entries := s.entries.setIfInBounds i (.function r (some params)) })
    | .function _ (some _) => .error .paramsRecorded
    | e => .error (.wrongKind e "add_params")
  | .describe id => do return (.described (← s.describeEntry (← s.entry id)), s)
  | .fieldAdd id name field => do
    let i ← s.place id
    let fs ← s.fieldsOf id
    let f ← s.place field
    let fs ← liftScope (fs.declare name f)
    return (.done, { s with entries := s.entries.setIfInBounds i (.structDef fs) })
  | .fieldLookup id name => do return (.found (← liftScope ((← s.fieldsOf id).lookup name)), s)

end Session

/-- Runs requests from a fresh session; each answer comes with the depth of the
scope stack after it. -/
def Session.run (reqs : List Request) : List (Except SessionError Reply × Nat) :=
  (reqs.foldl (fun (s, out) r =>
    match s.step r with
    | .ok (reply, s') => (s', out.push (.ok reply, s'.scopes.depth))
    | .error e => (s, out.push (.error e, s.scopes.depth))) (({} : Session), #[])).2.toList

end EggFront
