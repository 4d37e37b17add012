/-
# Similar texts

The Jaro similarity of two texts, as a binary64 number.  Characters of both texts are
matched if they are equal and stand less than half the longer length apart; with `m`
matches, of which `t` pairs are out of order, the similarity is the mean of `m / |a|`,
`m / |b|` and `(m - t / 2) / m`.  Each quotient and each sum is rounded.
-/

import ReleaseLint.Decimal.Binary64

namespace ReleaseLint
namespace Text

open Decimal (Binary64)

/-- The first place from `place` on, before `stop`, at which `c` stands and nothing is
matched yet. -/
def firstFree? (c : Char) (stop : Nat) : (place : Nat) → List (Char × Bool) → Option Nat
  | _, [] => none
  | place, (d, taken) :: r =>
    if stop ≤ place then none
    else if d == c && !taken then some place
    else firstFree? c stop (place + 1) r

/-- Match the characters of a text, the first of which stands at `place`, with those
of `b`: the places matched in order, and what is taken of `b`. -/
def matchChars (range : Nat) :
    (place : Nat) → List Char → (b : List (Char × Bool)) → List Char × List (Char × Bool)
  | _, [], b => ([], b)
  | place, c :: r, b =>
    let start := place - range
    match firstFree? c (place + range + 1) start (b.drop start) with
    | none => matchChars range (place + 1) r b
    | some found =>
      let (rest, b) := matchChars range (place + 1) r (b.set found (c, true))
      (c :: rest, b)

/-- The quotient of two counts as a binary64 number. -/
def quotient (n d : Nat) : Binary64 :=
  (Binary64.ofRatio false n d).getD (.zero false)

/-- The mean of three numbers, added from left to right. -/
def meanOfThree (x y z : Binary64) : Binary64 :=
  let sum := ((x.addSizes? y).bind (·.addSizes? z)).getD (.zero false)
  let (n, d) := sum.ratio
  quotient n (3 * d)

/-- The similarity of two texts that are not empty. -/
def similarity (a b : String) : Binary64 :=
  let s := a.toList
  let u := b.toList
  let range := max s.length u.length / 2 - 1
  let (matched, taken) := matchChars range 0 s (u.map fun c => (c, false))
  let others := (taken.filter (·.2)).map (·.1)
  let m := matched.length
  let swapped := ((matched.zip others).countP fun p => p.1 != p.2) / 2
  if m = 0 then .zero false
  else meanOfThree (quotient m s.length) (quotient m u.length) (quotient (m - swapped) m)

/-- The similarity that is not enough: seven tenths. -/
def slightSimilarity : Binary64 :=
  quotient 7 10

/-- The better one of two candidates for what a text means; of two that are as good, the
second. -/
def better (a : String) : Option String → String → Option String
  | none, c => some c
  | some b, c => if (similarity a c).smaller (similarity a b) then some b else some c

/-- The text of a list that is most similar to `a`, the last one of several, if any is
similar. -/
def mostSimilar? (a : String) (candidates : List String) : Option String :=
  (candidates.filter fun c => slightSimilarity.smaller (similarity a c)).foldl (better a) none

end Text
end ReleaseLint
