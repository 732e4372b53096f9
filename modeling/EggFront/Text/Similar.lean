/-!
# Similar words

How alike two words are, by matching blocks: take the longest block of
characters common to both (of the longest, the one starting first in the first
word, then first in the second), and do the same on each side of it, again and
again. The words' similarity is twice the number of characters matched over
their total length. A command line uses it to suggest the option a user may
have meant: the words at least 60% similar to what was typed, at most three,
the most similar first.

## Termination

Each step matches a block of at least one character and goes on with what lies
strictly before and strictly after it in the first word.
-/

namespace EggFront.Text

/-- How many characters two lists have in common at their fronts. -/
def commonPrefixLength : List Char → List Char → Nat
  | a :: as, b :: bs => if a == b then commonPrefixLength as bs + 1 else 0
  | _, _ => 0

/-- The longest block common to `a` and `b`, as its start in `a`, its start in
`b` and its length; of the longest, the one that starts first in `a`, then
first in `b`. With nothing in common, `(0, 0, 0)`. -/
def longestBlock (a b : List Char) : Nat × Nat × Nat :=
  let blocks := (List.range a.length).flatMap fun i =>
    (List.range b.length).map fun j => (i, j, commonPrefixLength (a.drop i) (b.drop j))
  blocks.foldl (fun best c => if c.2.2 > best.2.2 then c else best) (0, 0, 0)

/-- How many characters of `a` and `b` the matching blocks pair up. -/
def matchingCount (a b : List Char) : Nat :=
  match longestBlock a b with
  | (i, j, k) =>
    -- a block found always lies within `a`
    if _h : 0 < k ∧ i + k ≤ a.length then
      matchingCount (a.take i) (b.take j) + k + matchingCount (a.drop (i + k)) (b.drop (j + k))
    else 0
termination_by a.length
decreasing_by
  · simp only [List.length_take]
    omega
  · simp only [List.length_drop]
    omega

/-- Whether `word` is at least 60% similar to `candidate`. -/
def isClose (word candidate : String) : Bool :=
  let m := matchingCount candidate.toList word.toList
  10 * m ≥ 3 * (candidate.length + word.length)

/-- The candidates at least 60% similar to `word`, at most three, the most
similar first (of equally similar ones, the later in code-point order first). -/
def closeMatches (word : String) (candidates : List String) : List String :=
  let scored := (candidates.filter (isClose word)).map fun c =>
    (c, matchingCount c.toList word.toList, c.length + word.length)
  let sorted := scored.mergeSort fun x y =>
    x.2.1 * y.2.2 > y.2.1 * x.2.2 || (x.2.1 * y.2.2 == y.2.1 * x.2.2 && x.1 ≥ y.1)
  (sorted.take 3).map (·.1)

example : matchingCount "--colr".toList "--color".toList = 6 := by decide +kernel
example : closeMatches "--colr" ["--output", "--annotate", "--no-annotate", "--color", "--help"] =
    ["--color"] := by decide +kernel

end EggFront.Text
