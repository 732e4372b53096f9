/-!
# Shortest decimals of binary floating-point values

A finite binary64 value stands for every real that rounds to it: the reals
from halfway to the value below to halfway to the value above, both ends
included exactly when the mantissa is even. `Binary.shortest` picks, among the
decimals in that interval, one with the fewest significant digits, and of those
the nearest to the value.

## How

Write the value as `m * 2^q`. For `n = 1, 2, …, 17` significant digits, take the
grid of multiples of `10^(k - n)`, where `10^(k-1) ≤ value < 10^k`; the value's
two neighbours on the grid are the only candidates worth testing, since if any
point of the grid lies in the interval, so does the nearer neighbour on that
side. The first grid with a hit wins; of two hits the nearer, and on an exact
tie the even one. Trailing zeros then move into the exponent. All comparisons
are exact, over natural numbers.

Seventeen digits always suffice for binary64; should the search find nothing,
the exact value is returned, never a guess.
-/

namespace EggFront.Decimal

/-- A finite non-negative binary64 value, `m * 2^q`. -/
structure Binary where
  m : Nat
  q : Int
  /-- The gap to the value below is half the gap to the value above. -/
  narrowBelow : Bool

/-- The value of a finite binary64 bit pattern, sign ignored. -/
def Binary.ofBits (b : UInt64) : Binary :=
  let e := ((b >>> 52) &&& 0x7FF).toNat
  let f := (b &&& 0xFFFFFFFFFFFFF).toNat
  if e == 0 then ⟨f, -1074, false⟩ else ⟨Nat.pow 2 52 + f, (e : Int) - 1075, f == 0 && e > 1⟩

/-- `digits * 10^exp`. -/
structure Dec where
  digits : Nat
  exp : Int
deriving Repr, DecidableEq

/-- Compares `a * 10^i` with `n * 2^j`, exactly. -/
def cmpScaled (a : Nat) (i : Int) (n : Nat) (j : Int) : Ordering :=
  compare (a * Nat.pow 10 i.toNat * Nat.pow 2 (-j).toNat) (n * Nat.pow 2 j.toNat * Nat.pow 10 (-i).toNat)

/-- Whether `d` lies among the reals that round to `x` (to nearest, ties to even). -/
def Binary.readsBack (x : Binary) (d : Dec) : Bool :=
  let lo := if x.narrowBelow then 4 * x.m - 1 else 4 * x.m - 2
  let hi := 4 * x.m + 2
  let incl := x.m % 2 == 0
  let cl := cmpScaled d.digits d.exp lo (x.q - 2)
  let ch := cmpScaled d.digits d.exp hi (x.q - 2)
  (cl == .gt || (incl && cl == .eq)) && (ch == .lt || (incl && ch == .eq))

/-- The least `k` with `m * 2^q < 10^k`, for a non-zero value. -/
def Binary.scale (x : Binary) : Int :=
  -- `m * 2^q` lies below `10^k` for some `k` between -330 and 330
  let ks := (List.range 661).map fun (i : Nat) => (i : Int) - 330
  (ks.find? fun k => cmpScaled 1 k x.m x.q == .gt).getD 330

/-- `⌊x / 10^s⌋`. -/
def Binary.floorOn (x : Binary) (s : Int) : Nat :=
  (x.m * Nat.pow 2 x.q.toNat * Nat.pow 10 (-s).toNat) / (Nat.pow 2 (-x.q).toNat * Nat.pow 10 s.toNat)

/-- Moves trailing zeros of the digits into the exponent. -/
def Dec.strip (d : Dec) : Dec :=
  if h : d.digits ≠ 0 ∧ d.digits % 10 = 0 then strip ⟨d.digits / 10, d.exp + 1⟩ else d
termination_by d.digits
decreasing_by exact Nat.div_lt_self (Nat.pos_of_ne_zero h.1) (by decide)

/-- The candidate with `n` significant digits, if one reads back. -/
def Binary.onGrid (x : Binary) (k : Int) (n : Nat) : Option Dec :=
  let s := k - n
  let f := x.floorOn s
  let lo : Dec := ⟨f, s⟩
  let hi : Dec := ⟨f + 1, s⟩
  match x.readsBack lo, x.readsBack hi with
  | true, true =>
    -- the nearer of the two: compare twice the value with their sum
    match cmpScaled (2 * f + 1) s x.m (x.q + 1) with
    | .gt => some lo
    | .lt => some hi
    | .eq => some (if f % 2 == 0 then lo else hi)
  | true, false => some lo
  | false, true => some hi
  | false, false => none

/-- The shortest decimal that reads back as `x`, the nearest of those. -/
def Binary.shortest (x : Binary) : Dec :=
  if x.m = 0 then ⟨0, 0⟩
  else
    let k := x.scale
    match (List.range 17).findSome? fun i => x.onGrid k (i + 1) with
    | some d => d.strip
    | none => (⟨x.m * Nat.pow 2 x.q.toNat * Nat.pow 5 (-x.q).toNat, min x.q 0⟩ : Dec).strip

end EggFront.Decimal
