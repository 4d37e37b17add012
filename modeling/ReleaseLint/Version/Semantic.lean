/-
# Semantic versions

    version := number . number . number ( - identifiers ) ? ( + identifiers ) ?

Numbers have 64 bits and no zero in front.  Identifiers are separated by dots and
made of letters, digits and hyphens; before the `+`, one of digits alone has no zero
in front.
-/

namespace ReleaseLint
namespace Version

/-- A semantic version. -/
structure Semantic where
  major : Nat
  minor : Nat
  patch : Nat
  pre : List String
  build : List String
deriving DecidableEq, Repr, Inhabited

/-- Digits without a zero in front, other than zero itself. -/
def isCanonical (digits : List Char) : Bool :=
  !digits.isEmpty && digits.all Char.isDigit && (digits.length = 1 || digits.head? != some '0')

/-- The number of 64 bits that a list of digits writes. -/
def number? (s : List Char) : Option Nat :=
  if isCanonical s then
    let n := s.foldl (fun n c => n * 10 + (c.toNat - 48)) 0
    if n < UInt64.size then some n else none
  else none

/-- Whether a list of characters is an identifier. -/
def isIdentifier (s : List Char) : Bool :=
  !s.isEmpty && s.all fun c => c.isAlphanum || c == '-'

/-- Whether an identifier is made of digits alone. -/
def isNumeric (s : List Char) : Bool :=
  s.all Char.isDigit

/-- The identifiers separated by dots. -/
def identifiers? (numericCanonical : Bool) (s : List Char) : Option (List String) :=
  let ids := s.splitOn '.'
  if ids.all fun i => isIdentifier i && (!numericCanonical || !isNumeric i || isCanonical i) then
    some (ids.map String.ofList)
  else none

/-- The part of a text from the character `c` on, without it, and the part before. -/
def cut (c : Char) (s : List Char) : List Char × Option (List Char) :=
  match s.dropWhile (· != c) with
  | [] => (s, none)
  | _ :: r => (s.takeWhile (· != c), some r)

/-- The version that a list of characters writes. -/
def ofChars? (s : List Char) : Option Semantic := do
  let (front, build) := cut '+' s
  let (core, pre) := cut '-' front
  let build ← (build.map (identifiers? false)).getD (some [])
  let pre ← (pre.map (identifiers? true)).getD (some [])
  match core.splitOn '.' with
  | [a, b, c] => some ⟨← number? a, ← number? b, ← number? c, pre, build⟩
  | _ => none

/-- The version that a text writes. -/
def Semantic.ofText? (s : String) : Option Semantic :=
  ofChars? s.toList

/-- The order of two identifiers: digits as numbers, and before any others. -/
def compareIdentifier (a b : String) : Ordering :=
  match isNumeric a.toList, isNumeric b.toList with
  | true, true =>
    let value (s : String) := s.toList.foldl (fun n c => n * 10 + (c.toNat - 48)) 0
    (compare (value a) (value b)).then (compare a.length b.length)
  | true, false => .lt
  | false, true => .gt
  | false, false => compare a b

/-- The order of two lists of identifiers; the shorter one comes first. -/
def compareIdentifiers : List String → List String → Ordering
  | [], [] => .eq
  | [], _ :: _ => .lt
  | _ :: _, [] => .gt
  | a :: r, b :: s => (compareIdentifier a b).then (compareIdentifiers r s)

/-- The order of two pre-releases; a release comes after all of them. -/
def comparePre : List String → List String → Ordering
  | [], [] => .eq
  | [], _ :: _ => .gt
  | _ :: _, [] => .lt
  | a, b => compareIdentifiers a b

/-- The order of versions by their numbers, then the pre-release, then the build. -/
def Semantic.compare (a b : Semantic) : Ordering :=
  (Ord.compare a.major b.major).then <| (Ord.compare a.minor b.minor).then <|
    (Ord.compare a.patch b.patch).then <| (comparePre a.pre b.pre).then <|
      compareIdentifiers a.build b.build

end Version
end ReleaseLint
