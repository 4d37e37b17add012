/-
# The fewest digits that read back

Every real number nearer to a binary64 number than to its neighbours reads back as
it; the ends of that interval do so when the mantissa is even.  For 1, 2, … 17
digits the two neighbours of the number on the grid of that many digits are tried;
the first grid with a hit wins, and of two hits the nearer.

A number is written positionally from `1e-5` to below `1e16`, with at least one
digit on either side of the point, and with an exponent elsewhere.
-/

import ReleaseLint.Decimal.Binary64

namespace ReleaseLint
namespace Decimal

/-- `num / den` as a multiple of `10 ^ k`: numerator and denominator. -/
def scaleTen (num den : Nat) (k : Int) : Nat × Nat :=
  if 0 ≤ k then (num, den * powerOfTen k.toNat) else (num * powerOfTen (-k).toNat, den)

/-- The largest `k` with `10 ^ k ≤ num / den`, for a quotient that is not zero. -/
def floorLog10 (num den : Nat) : Int :=
  let guess : Int := (Nat.toDigits 10 num).length - (Nat.toDigits 10 den).length
  let (a, b) := scaleTen num den guess
  if b ≤ a then guess else guess - 1

namespace Binary64

/-- The interval of a number as numerators over `4 · den`: its value, its lower and
its upper end, and `den`. -/
def interval (x : Binary64) : Nat × Nat × Nat × Nat :=
  let m := x.mantissa
  let below := if m = topMantissa / 2 ∧ x.exponent ≠ minExponent then 1 else 2
  let up := if 0 ≤ x.exponent then 1 <<< x.exponent.toNat else 1
  let den := if 0 ≤ x.exponent then 1 else 1 <<< (-x.exponent).toNat
  (4 * m * up, (4 * m - below) * up, (4 * m + 2) * up, den)

/-- The digits and the power of ten of the nearest hit among the neighbours of a
number on the grid of `n` digits. -/
def hit? (x : Binary64) (n : Nat) : Option (Nat × Int) :=
  let (v, lo, hi, den) := x.interval
  let k := floorLog10 v (4 * den) + 1 - n
  let d := let (a, b) := scaleTen v (4 * den) k; a / b
  let even := x.mantissa % 2 = 0
  -- `c · 10 ^ k` as a numerator over the common denominator of all four numbers
  let up := if 0 ≤ k then powerOfTen k.toNat else 1
  let down := if 0 ≤ k then 1 else powerOfTen (-k).toNat
  let scaled (c : Nat) := c * up * 4 * den
  let inside (c : Nat) : Bool :=
    if even then lo * down ≤ scaled c && scaled c ≤ hi * down else lo * down < scaled c && scaled c < hi * down
  let far (c : Nat) := if scaled c < v * down then v * down - scaled c else scaled c - v * down
  match inside d, inside (d + 1) with
  | true, true => some (if far (d + 1) < far d ∨ (far (d + 1) = far d ∧ d % 2 = 1) then d + 1 else d, k)
  | true, false => some (d, k)
  | false, true => some (d + 1, k)
  | false, false => none

/-- The fewest digits that read back, and their power of ten. -/
def shortest (x : Binary64) : Nat × Int :=
  (((List.range 17).map (· + 1)).findSome? x.hit?).getD (0, 0)

/-- A number without the zeros at its end, and how many there were. -/
def dropZeros : (n : Nat) → Nat → Nat × Nat
  | 0, d => (d, 0)
  | n + 1, d => if d ≠ 0 ∧ d % 10 = 0 then (dropZeros n (d / 10)).map id (· + 1) else (d, 0)

/-- The text of a number without its sign. -/
def magnitude (x : Binary64) : List Char :=
  if x.mantissa = 0 then ['0', '.', '0']
  else
    let (d, k) := x.shortest
    let (d, zeros) := dropZeros 20 d
    let digits := Nat.toDigits 10 d
    let k := k + zeros
    let point : Int := digits.length + k
    if 0 ≤ k ∧ point ≤ 16 then digits ++ List.replicate k.toNat '0' ++ ['.', '0']
    else if 0 < point ∧ point ≤ 16 then
      digits.take point.toNat ++ ['.'] ++ digits.drop point.toNat
    else if -5 < point ∧ point ≤ 0 then
      ['0', '.'] ++ List.replicate (-point).toNat '0' ++ digits
    else
      let mantissa := if digits.length = 1 then digits else digits.take 1 ++ ['.'] ++ digits.drop 1
      mantissa ++ ['e'] ++ (toString (point - 1)).toList

/-- The text of a number. -/
def text (x : Binary64) : String :=
  String.ofList ((if x.negative then ['-'] else []) ++ x.magnitude)

end Binary64
end Decimal
end ReleaseLint
