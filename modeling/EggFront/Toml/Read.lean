import EggFront.Toml.Literal
import EggFront.Toml.Flags
import EggFront.Toml.Table

/-!
# Reading a TOML document

`Toml.parse` reads a whole document into its root table, statement by statement:
blank lines, comments, `key = value` pairs, `[table]` headers and `[[array]]`
headers. A document is read after each `\r\n` is joined into `\n`, and a problem
is reported at the first place it shows.

## Keys and values

A key is one or more parts joined by dots, each bare (`a-b_1`) or quoted. A
value is a literal (`EggFront.Toml.Literal`), an array `[v, …]` that may run
over lines and hold comments and a trailing comma, or an inline table `{k = v, …}`
on one line with no trailing comma. Inside an inline table a dotted key opens
tables on the way, and a table or array given as a value is frozen.

## Statements

A header makes its table explicit and moves later pairs into it; `[[a]]` adds a
table to the array `a` and moves into that one. A pair's dotted key creates the
tables on its way, which may not be explicit already and which become explicit
at the next header (`Flags`). A pair may not change a frozen table or define a
key twice.

## Termination

Every reader answers with a suffix of what it was given. A reader that starts
another on the very characters it was given (an array on its first item, an
inline table on its first pair) ranks above it; every other call is on strictly
fewer characters.
-/

namespace EggFront.Toml

variable {cs ds : List Char} {α : Type}

/-- A reading of `ds` seen as one of `cs`, which `ds` ends. -/
def Take.widen (x : Take ds α) (h : ds <:+ cs) : Take cs α := x.map (·.widen h)

/-- A reading of `ds` seen as one of `cs`, its value changed by `f`. -/
def Take.lift {β : Type} (x : Take ds α) (f : α → β) (h : ds <:+ cs) : Take cs β :=
  x.map fun t => (t.widen h).map f

/-! ## Keys -/

/-- Reads one part of a key: bare, or a one-line string. -/
def keyPart : (cs : List Char) → Take cs String
  | [] => stopAt .invalidKeyStart []
  | c :: r =>
    if isBareKeyChar c then
      .ok ⟨String.ofList ((c :: r).takeWhile isBareKeyChar), (c :: r).dropWhile isBareKeyChar,
        List.dropWhile_suffix _⟩
    else if c == '\'' then (literalString r).widen (List.suffix_cons _ _)
    else if c == '"' then (basicBody false "" r).widen (List.suffix_cons _ _)
    else stopAt .invalidKeyStart (c :: r)

/-- Reads the dotted parts after the first part of a key. -/
def keyRest (acc : Key) : (cs : List Char) → Take cs Key
  | '.' :: r =>
    match keyPart (r.dropWhile isBlank) with
    | .error e => .error e
    | .ok t =>
      (keyRest (acc ++ [t.value]) (t.rest.dropWhile isBlank)).widen
        ((List.dropWhile_suffix _).trans (t.suffix.trans
          ((List.dropWhile_suffix _).trans (List.suffix_cons _ _))))
  | cs => .ok ⟨acc, cs, List.suffix_refl cs⟩
termination_by cs => cs.length
decreasing_by
  have h1 := t.length_le
  have h2 := (@List.dropWhile_suffix _ r isBlank).length_le
  have h3 := (@List.dropWhile_suffix _ t.rest isBlank).length_le
  simp only [List.length_cons]
  omega

/-- Reads a key, and the blanks after it. -/
def key (cs : List Char) : Take cs Key :=
  match keyPart cs with
  | .error e => .error e
  | .ok t => (keyRest [t.value] (t.rest.dropWhile isBlank)).widen
      ((List.dropWhile_suffix _).trans t.suffix)

/-! ## Values -/

/-- Skips blanks, line breaks and comments, as arrays allow between their items. -/
def skipArrayBlank (cs : List Char) : Take cs Unit :=
  match skipComment (cs.dropWhile isBlankOrNewline) with
  | .error e => .error e
  | .ok t =>
    if _h : t.rest.length < cs.length then
      (skipArrayBlank t.rest).widen (t.suffix.trans (List.dropWhile_suffix _))
    else .ok (t.widen (List.dropWhile_suffix _))
termination_by cs.length

/-- Reads a literal that is not a string, a boolean, an array or an inline
table: a date, a time or a number. -/
def scalar (cs : List Char) : Take cs Value :=
  match dated? cs with
  | some (d, n) =>
    if d.calendarDate.exists then .ok ⟨d.value, cs.drop n, List.drop_suffix _ _⟩
    else stopAt .invalidDate cs
  | none =>
    match time? cs with
    | some (t, n) => .ok ⟨.time t, cs.drop n, List.drop_suffix _ _⟩
    | none =>
      match number? cs with
      | some (.ok v, n) => .ok ⟨v, cs.drop n, List.drop_suffix _ _⟩
      | some (.error p, _) => stopAt p cs
      | none => stopAt .invalidValue cs

/-- Whether a value is a table or an array, which freezes it. -/
def Value.isContainer : Value → Bool
  | .table _ | .array _ => true
  | _ => false

/-- Puts a value at a new key of an inline table. -/
def putInline (t : Table) (key : Key) (v : Value) : Except Problem Table :=
  t.modifyAt false (fun nest =>
    let stem := key.getLast?.getD ""
    if nest.contains stem then .error (.duplicateInlineKey stem) else .ok (nest.put stem v))
    key.dropLast

mutual

/-- Reads a value. -/
def value : (cs : List Char) → Take cs Value
  | '"' :: '"' :: '"' :: r =>
    (multilineBasic r).lift Value.str (List.suffix_append ['"', '"', '"'] r)
  | '"' :: r => (basicBody false "" r).lift Value.str (List.suffix_cons _ _)
  | '\'' :: '\'' :: '\'' :: r =>
    (multilineLiteral r).lift Value.str (List.suffix_append ['\'', '\'', '\''] r)
  | '\'' :: r => (literalString r).lift Value.str (List.suffix_cons _ _)
  | 't' :: 'r' :: 'u' :: 'e' :: r =>
    .ok ⟨.bool true, r, List.suffix_append ['t', 'r', 'u', 'e'] r⟩
  | 'f' :: 'a' :: 'l' :: 's' :: 'e' :: r =>
    .ok ⟨.bool false, r, List.suffix_append ['f', 'a', 'l', 's', 'e'] r⟩
  | '[' :: r =>
    match skipArrayBlank r with
    | .error e => .error e
    | .ok s =>
      match h : s.rest with
      | ']' :: r' => .ok ⟨.array [], r', by
          have := s.suffix; rw [h] at this
          exact (List.suffix_cons _ _).trans (this.trans (List.suffix_cons _ _))⟩
      | _ => (arrayItems [] s.rest).lift Value.array
          (s.suffix.trans (List.suffix_cons _ _))
  | '{' :: r =>
    match h : r.dropWhile isBlank with
    | '}' :: r' => .ok ⟨.table [], r', by
        have := @List.dropWhile_suffix _ r isBlank; rw [h] at this
        exact (List.suffix_cons _ _).trans (this.trans (List.suffix_cons _ _))⟩
    | _ => (inlineEntries [] {} (r.dropWhile isBlank)).lift Value.table
        ((List.dropWhile_suffix _).trans (List.suffix_cons _ _))
  | cs => scalar cs
termination_by cs => (cs.length, 0)
decreasing_by
  all_goals apply Prod.Lex.left
  · have := s.length_le
    simp only [List.length_cons]
    omega
  · have := (@List.dropWhile_suffix _ r isBlank).length_le
    simp only [List.length_cons]
    omega

/-- Reads the items of an array from its first one, through the closing bracket. -/
def arrayItems (acc : List Value) (cs : List Char) : Take cs (List Value) :=
  match value cs with
  | .error e => .error e
  | .ok t =>
    match skipArrayBlank t.rest with
    | .error e => .error e
    | .ok a =>
      match h : a.rest with
      | ']' :: r => .ok ⟨acc ++ [t.value], r, by
          have := a.suffix; rw [h] at this
          exact (List.suffix_cons _ _).trans (this.trans t.suffix)⟩
      | ',' :: r =>
        match skipArrayBlank r with
        | .error e => .error e
        | .ok b =>
          have hr : r <:+ cs := by
            have := a.suffix; rw [h] at this
            exact (List.suffix_cons _ _).trans (this.trans t.suffix)
          match h' : b.rest with
          | ']' :: r' => .ok ⟨acc ++ [t.value], r', by
              have := b.suffix; rw [h'] at this
              exact (List.suffix_cons _ _).trans (this.trans hr)⟩
          | _ => (arrayItems (acc ++ [t.value]) b.rest).widen (b.suffix.trans hr)
      | _ => stopAt .unclosedArray a.rest
termination_by (cs.length, 1)
decreasing_by
  · exact Prod.Lex.right _ (by decide)
  · apply Prod.Lex.left
    have h1 := t.length_le
    have h2 := a.length_le
    have h3 := b.length_le
    rw [h] at h2
    simp only [List.length_cons] at h1 h2 h3 ⊢
    omega

/-- Reads the pairs of an inline table from its first one, through the closing brace. -/
def inlineEntries (acc : Table) (flags : Flags) (cs : List Char) : Take cs Table :=
  match keyValue cs with
  | .error e => .error e
  | .ok kv =>
    let (k, v) := kv.value
    if flags.has k .frozen then stopAt (.immutable k) kv.rest
    else
      match putInline acc k v with
      | .error p => stopAt p kv.rest
      | .ok acc =>
        match h : kv.rest.dropWhile isBlank with
        | '}' :: r => .ok ⟨acc, r, by
            have := @List.dropWhile_suffix _ kv.rest isBlank; rw [h] at this
            exact (List.suffix_cons _ _).trans (this.trans kv.suffix)⟩
        | ',' :: r =>
          let flags := if v.isContainer then flags.set k .frozen true else flags
          (inlineEntries acc flags (r.dropWhile isBlank)).widen (by
            have := @List.dropWhile_suffix _ kv.rest isBlank; rw [h] at this
            exact (List.dropWhile_suffix _).trans
              ((List.suffix_cons _ _).trans (this.trans kv.suffix)))
        | rest => stopAt .unclosedInlineTable rest
termination_by (cs.length, 1)
decreasing_by
  · exact Prod.Lex.right _ (by decide)
  · apply Prod.Lex.left
    have h1 := kv.length_le
    have h2 := (@List.dropWhile_suffix _ kv.rest isBlank).length_le
    have h3 := (@List.dropWhile_suffix _ r isBlank).length_le
    rw [h] at h2
    simp only [List.length_cons] at h1 h2 h3 ⊢
    omega

/-- Reads `key = value`. -/
def keyValue (cs : List Char) : Take cs (Key × Value) :=
  match key cs with
  | .error e => .error e
  | .ok k =>
    match h : k.rest with
    | '=' :: r =>
      match value (r.dropWhile isBlank) with
      | .error e => .error e
      | .ok v => .ok ⟨(k.value, v.value), v.rest, by
          have := k.suffix; rw [h] at this
          exact v.suffix.trans ((List.dropWhile_suffix _).trans
            ((List.suffix_cons _ _).trans this))⟩
    | _ => stopAt .expectedEquals k.rest
termination_by (cs.length, 0)
decreasing_by
  apply Prod.Lex.left
  have h1 := k.length_le
  have h2 := (@List.dropWhile_suffix _ r isBlank).length_le
  rw [h] at h1
  simp only [List.length_cons] at h1 h2 ⊢
  omega

end

/-! ## Statements -/

/-- A document being read: its tables, the flags on their keys, and the key of
the table that pairs go into. -/
structure Document where
  root : Table := []
  flags : Flags := {}
  header : Key := []

namespace Document

/-- Stops at a problem of changing the tables. -/
def orStop {β : Type} (rest : List Char) : Except Problem β → Except DecodeError β
  | .ok b => .ok b
  | .error p => stopAt p rest

/-- Reads a `[table]` header, from after its bracket. -/
def tableHeader (d : Document) (cs : List Char) : Take cs Document :=
  match key (cs.dropWhile isBlank) with
  | .error e => .error e
  | .ok k =>
    if d.flags.has k.value .explicit || d.flags.has k.value .frozen then
      stopAt (.declaredTwice k.value) k.rest
    else
      let flags := d.flags.set k.value .explicit false
      match orStop k.rest (d.root.modifyAt true .ok k.value) with
      | .error e => .error e
      | .ok root =>
        match h : k.rest with
        | ']' :: r => .ok ⟨⟨root, flags, k.value⟩, r, by
            have := k.suffix; rw [h] at this
            exact (List.suffix_cons _ _).trans (this.trans (List.dropWhile_suffix _))⟩
        | _ => stopAt .unclosedTableHeader k.rest

/-- Reads a `[[array]]` header, from after its brackets. -/
def arrayHeader (d : Document) (cs : List Char) : Take cs Document :=
  match key (cs.dropWhile isBlank) with
  | .error e => .error e
  | .ok k =>
    if d.flags.has k.value .frozen then stopAt (.immutable k.value) k.rest
    else
      let flags := (d.flags.clear k.value).set k.value .explicit false
      match orStop k.rest (d.root.appendTable k.value) with
      | .error e => .error e
      | .ok root =>
        match h : k.rest with
        | ']' :: ']' :: r => .ok ⟨⟨root, flags, k.value⟩, r, by
            have := k.suffix; rw [h] at this
            exact (List.suffix_append [']', ']'] r).trans (this.trans (List.dropWhile_suffix _))⟩
        | _ => stopAt .unclosedArrayHeader k.rest

/-- The keys of the tables that a pair's dotted key opens on its way. -/
def opened (header k : Key) : List Key :=
  (List.range (k.length - 1)).map fun i => header ++ k.take (i + 1)

/-- Marks the tables a dotted key opens, refusing those that are explicit already. -/
def openAll (flags : Flags) (rest : List Char) : List Key → Except DecodeError Flags
  | [] => .ok flags
  | k :: ks =>
    if flags.has k .explicit then stopAt (.redefinedNamespace k) rest
    else openAll (flags.defer k .explicit) rest ks

/-- Reads a `key = value` statement. -/
def pair (d : Document) (cs : List Char) : Take cs Document :=
  match keyValue cs with
  | .error e => .error e
  | .ok kv =>
    let (k, v) := kv.value
    let parent := d.header ++ k.dropLast
    let stem := k.getLast?.getD ""
    match openAll d.flags kv.rest (opened d.header k) with
    | .error e => .error e
    | .ok flags =>
      if flags.has parent .frozen then stopAt (.immutable parent) kv.rest
      else
        let put (nest : Table) : Except Problem Table :=
          if nest.contains stem then .error .overwrite else .ok (nest.put stem v)
        match orStop kv.rest (d.root.modifyAt true put parent) with
        | .error e => .error e
        | .ok root =>
          let flags := if v.isContainer then flags.set (d.header ++ k) .frozen true else flags
          .ok ⟨⟨root, flags, d.header⟩, kv.rest, kv.suffix⟩

/-- Reads one statement that starts with `c`, up to the comment or line break after it. -/
def statement (d : Document) (c : Char) (r : List Char) : Take (c :: r) Document :=
  if isBareKeyChar c || c == '"' || c == '\'' then
    (d.pair (c :: r)).map (Taken.skip isBlank)
  else if c == '[' then
    let d := { d with flags := d.flags.settle }
    match r with
    | '[' :: r' => Take.widen ((d.arrayHeader r').map (Taken.skip isBlank))
        ((List.suffix_cons _ _).trans (List.suffix_cons _ _))
    | r => Take.widen ((d.tableHeader r).map (Taken.skip isBlank)) (List.suffix_cons _ _)
  else if c == '#' then .ok ⟨d, c :: r, List.suffix_refl _⟩
  else stopAt .invalidStatement (c :: r)

/-- Reads statements to the end of the document. -/
def statements (d : Document) (cs : List Char) : Except DecodeError Table :=
  match _hs : cs.dropWhile isBlank with
  | [] => .ok d.root
  | '\n' :: r => statements d r
  | c :: r =>
    match statement d c r with
    | .error e => .error e
    | .ok s =>
      match skipComment s.rest with
      | .error e => .error e
      | .ok ⟨(), [], _⟩ => .ok s.value.root
      | .ok ⟨(), '\n' :: r', _ht⟩ => statements s.value r'
      | .ok ⟨(), c' :: rest, _⟩ => stopAt .expectedLineEnd (c' :: rest)
termination_by cs.length
decreasing_by
  · have := (@List.dropWhile_suffix _ cs isBlank).length_le
    rw [_hs] at this
    simp only [List.length_cons] at this
    omega
  · have h1 := (@List.dropWhile_suffix _ cs isBlank).length_le
    rw [_hs] at h1
    have h2 := s.length_le
    have h3 := _ht.length_le
    simp only [List.length_cons] at h1 h2 h3 ⊢
    omega

end Document

/-- The characters of a text with each `\r\n` joined into `\n`. -/
def joinLineBreaks : List Char → List Char
  | '\r' :: '\n' :: r => '\n' :: joinLineBreaks r
  | c :: r => c :: joinLineBreaks r
  | [] => []

/-- Reads a TOML document into its root table; a problem is placed in the
document with its line breaks joined. -/
def parse (text : String) : Except DecodeError Table :=
  Document.statements {} (joinLineBreaks text.toList)

/-- Reads a TOML document into its root table, or says why it is not valid. -/
def decode (text : String) : Except String Table :=
  (parse text).mapError (·.message (joinLineBreaks text.toList))

end EggFront.Toml
