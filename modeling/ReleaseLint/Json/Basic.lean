/-
# JSON values

A value as its text writes it: numbers keep as many digits as an integer of 64 bits
has place for and the power of ten of the last of them, objects keep the order and the
repetitions of their keys.  A string that holds half of a surrogate pair has no text
and is `none`; a value with such a string, with a number beyond binary64 or with more
than 127 levels is read, but is not sound.
-/

import ReleaseLint.Decimal.Binary64

namespace ReleaseLint

namespace Json

/-- A number `± digits · 10 ^ exponent`, up to digits beyond an integer of 64 bits;
`whole` says that it is written without a fraction and without an exponent. -/
structure Number where
  negative : Bool
  digits : Nat
  exponent : Int
  whole : Bool
deriving DecidableEq, Repr, Inhabited

namespace Number

/-- The number that is a count. -/
def ofNat (n : Nat) : Number := ⟨false, n, 0, true⟩

/-- Whether a number is finite as a binary64 number: its digits and the power of ten
are rounded, and so is their product. -/
def isFinite (n : Number) : Bool :=
  n.digits == 0 || n.exponent < 0 ||
    (n.exponent ≤ 308 &&
      ((do
        let digits ← Decimal.Binary64.ofDecimal false n.digits 0
        let power ← Decimal.Binary64.ofDecimal false 1 n.exponent
        digits.mul? power).isSome))

/-- Whether a number is an integer of 64 bits, with a sign beside it. -/
def isInteger (n : Number) : Bool :=
  n.whole && n.exponent == 0

/-- The unsigned integer of 64 bits that a number writes. -/
def unsigned? (n : Number) : Option Nat :=
  if n.isInteger && !n.negative then some n.digits else none

/-- The signed integer of 64 bits that a number writes; a negative zero is none. -/
def signed? (n : Number) : Option Int :=
  if !n.isInteger then none
  else if n.negative then
    (if 0 < n.digits && n.digits ≤ UInt64.size / 2 then some (-(n.digits : Int)) else none)
  else if n.digits < UInt64.size / 2 then some n.digits
  else none

end Number
end Json

/-- A JSON value. -/
inductive Json where
  | null
  | bool (b : Bool)
  | number (n : Json.Number)
  | string (s : Option String)
  | array (items : List Json)
  | object (members : List (Option String × Json))
deriving Repr, Inhabited

namespace Json

/-- The value of a text. -/
def text (s : String) : Json := .string (some s)

/-- The value of a count. -/
def count (n : Nat) : Json := .number (.ofNat n)

/-- The object with these members. -/
def record (members : List (String × Json)) : Json :=
  .object (members.map fun m => (some m.1, m.2))

mutual

/-- Whether every string has a text, every number is finite, and collections nest at
most `depth` deep. -/
def soundTo (depth : Nat) : Json → Bool
  | null | bool _ => true
  | number n => n.isFinite
  | string s => s.isSome
  | array items => 0 < depth && soundItems (depth - 1) items
  | object members => 0 < depth && soundMembers (depth - 1) members

/-- Whether all of a list of values are sound. -/
def soundItems (depth : Nat) : List Json → Bool
  | [] => true
  | item :: r => soundTo depth item && soundItems depth r

/-- Whether all members of an object are sound, and their keys. -/
def soundMembers (depth : Nat) : List (Option String × Json) → Bool
  | [] => true
  | (key, value) :: r => key.isSome && soundTo depth value && soundMembers depth r

end

/-- How deep the collections of a sound value may nest. -/
def maxDepth : Nat := 127

/-- Whether a value is sound. -/
def isSound (j : Json) : Bool :=
  soundTo maxDepth j

end Json
end ReleaseLint
