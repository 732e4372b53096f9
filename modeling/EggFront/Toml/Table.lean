import EggFront.Toml.Value
import EggFront.Toml.Error

/-!
# Tables of a document being read

A table is a list of entries in the order their keys were first defined.
Reading a document changes the table that a key leads to: `Table.modifyAt`
walks the key from the root, creating an empty table for each part not there
yet, and changes the table it ends at. On the way, an array of tables stands for
its last table when `throughArrays` is set (a header or a dotted key inside the
latest `[[…]]` block reaches into it). A part that names anything other than a
table stops the walk with `Cannot overwrite a value`.

The walk recurses on the key, one part at a time.
-/

namespace EggFront.Toml

/-- The entries of a table, in the order their keys were defined. -/
abbrev Table := List (String × Value)

namespace Table

/-- The value of a key, if the table defines it. -/
def get? (t : Table) (k : String) : Option Value := Value.lookup t k

/-- Whether the table defines a key. -/
def contains (t : Table) (k : String) : Bool := (t.get? k).isSome

/-- Gives a key a value: in place if the table defines it, after the others if not. -/
def put (t : Table) (k : String) (v : Value) : Table :=
  if t.contains k then t.map fun e => if e.1 == k then (k, v) else e else t ++ [(k, v)]

/-- Changes the table that `key` leads to, creating the tables missing on the way. -/
def modifyAt (throughArrays : Bool) (f : Table → Except Problem Table) :
    Table → Key → Except Problem Table
  | t, [] => f t
  | t, k :: ks =>
    match t.get? k with
    | none => do
      let inner ← modifyAt throughArrays f [] ks
      pure (t.put k (.table inner))
    | some (.table inner) => do
      let inner ← modifyAt throughArrays f inner ks
      pure (t.put k (.table inner))
    | some (.array items) =>
      match throughArrays, items.getLast? with
      | true, some (.table inner) => do
        let inner ← modifyAt throughArrays f inner ks
        pure (t.put k (.array (items.dropLast ++ [.table inner])))
      | _, _ => .error .overwrite
    | some _ => .error .overwrite

/-- Adds an empty table to the array of tables at `key`, starting the array if
the key is new. -/
def appendTable (t : Table) (key : Key) : Except Problem Table :=
  match key.getLast?, key.dropLast with
  | none, _ => pure t
  | some last, parent =>
    t.modifyAt true (fun inner =>
      match inner.get? last with
      | none => pure (inner.put last (.array [.table []]))
      | some (.array items) => pure (inner.put last (.array (items ++ [.table []])))
      | some _ => .error .overwrite) parent

@[simp] theorem modifyAt_nil (b : Bool) (f : Table → Except Problem Table) (t : Table) :
    t.modifyAt b f [] = f t := by
  simp [modifyAt]

end Table

end EggFront.Toml
