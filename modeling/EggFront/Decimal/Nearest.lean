import EggFront.Decimal.Shortest

/-!
# The binary64 value nearest to a decimal

`Dec.nearestBits` rounds `digits * 10^exp` to the nearest binary64 value, a
tie going to the even mantissa, and answers with its bit pattern: positive
infinity past the largest finite value, zero below half the least subnormal.

## How

Write the decimal as a fraction `num / den`. The binary exponent `q` is the one
that puts `num / (den * 2^q)` in `[2^52, 2^53)`: the bit lengths of `num` and
`den` fix it up to one, and one floor division settles which. Below the normal
range `q` stays at `-1074`. The mantissa is then one rounded division, exact over
the natural numbers; a carry to `2^53` moves into the exponent.

Decimals whose exponent puts them far outside the range of binary64 are
answered without building their powers of ten.
-/

namespace EggFront.Decimal

/-- `n / d` rounded to the nearest natural number, a tie to the even one. -/
def roundHalfEven (n d : Nat) : Nat :=
  let q := n / d
  let r := n % d
  if 2 * r > d then q + 1
  else if 2 * r < d then q
  else if q % 2 = 0 then q else q + 1

/-- The bit pattern of positive infinity. -/
def infinityBits : UInt64 := 0x7FF0000000000000

/-- The bit pattern of the binary64 value nearest to `d`. -/
def Dec.nearestBits (d : Dec) : UInt64 :=
  if d.digits = 0 then 0
  else
    let width : Int := (Nat.toDigits 10 d.digits).length
    if width + d.exp > 310 then infinityBits
    else if width + d.exp < -325 then 0
    else
      let num := d.digits * Nat.pow 10 d.exp.toNat
      let den := Nat.pow 10 (-d.exp).toNat
      -- `num / (den * 2^q)`, rounded down and to nearest
      let floorAt (q : Int) := num * Nat.pow 2 (-q).toNat / (den * Nat.pow 2 q.toNat)
      let nearAt (q : Int) := roundHalfEven (num * Nat.pow 2 (-q).toNat) (den * Nat.pow 2 q.toNat)
      let guess : Int := (num.log2 : Int) - den.log2 - 52
      let q := if floorAt guess < Nat.pow 2 52 then guess - 1 else guess
      let q := max q (-1074)
      let m := nearAt q
      let (m, q) := if m = Nat.pow 2 53 then (Nat.pow 2 52, q + 1) else (m, q)
      if q > 971 then infinityBits
      else if m < Nat.pow 2 52 then m.toUInt64
      else ((q + 1075).toNat * Nat.pow 2 52 + (m - Nat.pow 2 52)).toUInt64

example : (⟨1, 0⟩ : Dec).nearestBits = 0x3FF0000000000000 := by decide
example : (⟨5, -1⟩ : Dec).nearestBits = 0x3FE0000000000000 := by decide

end EggFront.Decimal
