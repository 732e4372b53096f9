/-!
# Character classes as stretches of code points

A class of characters drawn from the Unicode database is stored as the sorted
list of code points where membership changes: the first bound starts a stretch
of members, the second ends it, and so on. A character belongs to the class
exactly when an odd number of bounds lie at or below its code point.

Looking a character up bisects the bounds, so a class of a thousand stretches
costs about ten comparisons.
-/

namespace EggFront

/-- A set of characters given by the code points where membership flips. -/
structure CharClass where
  bounds : Array Nat

namespace CharClass

/-- How many bounds in positions `lo` to `hi` (exclusive) are at most `n`, plus
`lo`; the bounds must be sorted. -/
def countAtMost (bounds : Array Nat) (n : Nat) (lo hi : Nat) : Nat :=
  if lo < hi then
    let mid := (lo + hi) / 2
    if (bounds[mid]?.getD 0) ≤ n then countAtMost bounds n (mid + 1) hi
    else countAtMost bounds n lo mid
  else lo
termination_by hi - lo

/-- Whether a character belongs to the class. -/
def contains (k : CharClass) (c : Char) : Bool :=
  countAtMost k.bounds c.toNat 0 k.bounds.size % 2 == 1

end CharClass

end EggFront
