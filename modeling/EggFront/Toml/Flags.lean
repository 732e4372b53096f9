import EggFront.Toml.Error

/-!
# Namespace flags

While a document is read, keys that name tables carry flags that forbid later
statements to reopen them. A table written inline or an array written as a
value is *frozen*: neither it nor anything under it can be changed again. A
table declared with a header, or opened on the way by a dotted key, is
*explicit*: no header may declare it once more.

A flag is set on one key, either on that key alone or on everything under it
as well (`recursive`). `Flags.has` answers whether a key carries a flag, on
itself or from a key above it that carries it recursively; the document's root
carries none.

Dotted keys mark their tables explicit only from the next header on: they are
kept *pending* until then (`Flags.settle`). Appending to an array of tables
clears every flag under its key, so the new table can be filled afresh.
-/

namespace EggFront.Toml

/-- The two flags a key can carry. -/
inductive Flag where
  | frozen
  | explicit
deriving Repr, DecidableEq

/-- One flag set on one key, on that key alone or on everything under it too. -/
structure Mark where
  key : Key
  flag : Flag
  recursive : Bool
deriving Repr, DecidableEq

/-- The flags of a document being read, and the ones still pending. -/
structure Flags where
  marks : List Mark := []
  pending : List (Key × Flag) := []
deriving Repr

namespace Flags

/-- Sets a flag on a key. -/
def set (fs : Flags) (key : Key) (flag : Flag) (recursive : Bool) : Flags :=
  { fs with marks := fs.marks ++ [⟨key, flag, recursive⟩] }

/-- Whether a key carries a flag, on itself or from a key above it. -/
def has (fs : Flags) (key : Key) (flag : Flag) : Bool :=
  !key.isEmpty && fs.marks.any fun m =>
    m.flag == flag && (m.key == key || (m.recursive && !m.key.isEmpty &&
      m.key.length < key.length && m.key.isPrefixOf key))

/-- Keeps a flag to be set on a key at the next header. -/
def defer (fs : Flags) (key : Key) (flag : Flag) : Flags :=
  { fs with pending := fs.pending ++ [(key, flag)] }

/-- Sets the pending flags, each on its key alone. -/
def settle (fs : Flags) : Flags :=
  ⟨fs.marks ++ fs.pending.map (fun (k, f) => ⟨k, f, false⟩), []⟩

/-- Clears every flag on a key and under it. -/
def clear (fs : Flags) (key : Key) : Flags :=
  { fs with marks := fs.marks.filter fun m => !key.isPrefixOf m.key }

@[simp] theorem has_nil (fs : Flags) (flag : Flag) : fs.has [] flag = false := rfl

end Flags

end EggFront.Toml
