/-
# Binary64 numbers as integers

A finite number of 64 bits is `± m · 2 ^ q` with `m < 2 ^ 53` and `-1074 ≤ q`, and
`2 ^ 52 ≤ m` unless `q = -1074`.  A decimal is read as the nearest such number, a
tie as the one with even `m`; beyond the largest one there is no number.
-/

namespace ReleaseLint
namespace Decimal

/-- A finite binary64 number `± mantissa · 2 ^ exponent`. -/
structure Binary64 where
  negative : Bool
  mantissa : Nat
  exponent : Int
deriving DecidableEq, Repr, Inhabited

/-- The quotient `num / den` rounded to the nearest integer, a tie to the even one. -/
def roundDiv (num den : Nat) : Nat :=
  let q := num / den
  let r := num % den
  if 2 * r < den then q
  else if den < 2 * r then q + 1
  else q + q % 2

/-- The power `10 ^ n`. -/
def powerOfTen (n : Nat) : Nat := Nat.pow 10 n

/-- `num / den` as a multiple of `2 ^ q`: numerator and denominator. -/
def scaleTwo (num den : Nat) (q : Int) : Nat × Nat :=
  if 0 ≤ q then (num, den <<< q.toNat) else (num <<< (-q).toNat, den)

namespace Binary64

/-- The first mantissa that is too large, `2 ^ 53`. -/
def topMantissa : Nat := 1 <<< 53

/-- The smallest exponent. -/
def minExponent : Int := -1074

/-- The largest exponent. -/
def maxExponent : Int := 971

/-- The nearest number to the positive quotient `num / den`. -/
def ofRatio (negative : Bool) (num den : Nat) : Option Binary64 :=
  let guess : Int := (num.log2 : Int) - (den.log2 : Int) - 53
  let fits (q : Int) : Bool :=
    let (a, b) := scaleTwo num den q
    a / b < topMantissa
  let q := if fits guess then guess else if fits (guess + 1) then guess + 1 else guess + 2
  let q := max q minExponent
  let (a, b) := scaleTwo num den q
  let m := roundDiv a b
  let (m, q) := if m = topMantissa then (topMantissa / 2, q + 1) else (m, q)
  if maxExponent < q then none else some ⟨negative, m, q⟩

/-- Zero. -/
def zero (negative : Bool) : Binary64 := ⟨negative, 0, minExponent⟩

/-- The nearest number to `digits · 10 ^ exponent`, unless it is too large. -/
def ofDecimal (negative : Bool) (digits : Nat) (exponent : Int) : Option Binary64 :=
  let size : Int := (Nat.toDigits 10 digits).length + exponent
  if digits = 0 ∨ size < -330 then some (zero negative)
  else if 310 < size then none
  else if 0 ≤ exponent then ofRatio negative (digits * powerOfTen exponent.toNat) 1
  else ofRatio negative digits (powerOfTen (-exponent).toNat)

/-- The size of a number as a fraction: numerator and denominator. -/
def ratio (x : Binary64) : Nat × Nat :=
  if 0 ≤ x.exponent then (x.mantissa <<< x.exponent.toNat, 1)
  else (x.mantissa, 1 <<< (-x.exponent).toNat)

/-- The nearest number to a product, unless it is too large. -/
def mul? (x y : Binary64) : Option Binary64 :=
  let (a, b) := x.ratio
  let (c, d) := y.ratio
  if a * c = 0 then some (zero (x.negative != y.negative))
  else ofRatio (x.negative != y.negative) (a * c) (b * d)

/-- The nearest number to the sum of the sizes of two numbers, unless it is too large. -/
def addSizes? (x y : Binary64) : Option Binary64 :=
  let (a, b) := x.ratio
  let (c, d) := y.ratio
  if a * d + c * b = 0 then some (zero false) else ofRatio false (a * d + c * b) (b * d)

/-- Whether a number is smaller in size than another one. -/
def smaller (x y : Binary64) : Bool :=
  let (a, b) := x.ratio
  let (c, d) := y.ratio
  a * d < c * b

end Binary64
end Decimal
end ReleaseLint
