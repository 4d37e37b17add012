/-
# How deep patterns nest

A pattern stands for an expression whose parts nest: sequences, alternatives, groups,
repetitions and classes count one level each where they have more than one part, groups,
repetitions and classes also where they have one.

| piece | expression | levels |
| --- | --- | --- |
| `?` | class | 1 |
| `*` | repetition of a class | 2 |
| `**/` in front, `/**/` | group of alternatives, one a sequence with a repetition | 4 |
| `/**` at the end | sequence of a slash and a repetition | 1 |
| `[…]` | class of one or more items, which are bytes or ranges of bytes | 1 or 2 |
| `{a,b}` | group of alternatives | 1 or 2, and those of a branch |

The whole pattern is a sequence.  An expression may have no more than 250 levels.
-/

import ReleaseLint.Glob.Pattern

namespace ReleaseLint
namespace Glob

/-- The number of bytes of a character. -/
def byteCount (c : Char) : Nat :=
  (String.ofList [c]).utf8ByteSize

/-- The number of items that a range of a class counts for. -/
def rangeItems (range : Char × Char) : Nat :=
  if range.1 = range.2 then byteCount range.1 else byteCount range.1 + byteCount range.2 - 1

/-- The number of parts of a sequence that a piece counts for. -/
def Piece.parts : Piece → Nat
  | .literal c => byteCount c
  | .trailing => 2
  | _ => 1

/-- The level that several parts need to stand together. -/
def levelFor (parts : Nat) : Nat :=
  if 1 < parts then 1 else 0

mutual

/-- How many levels a piece has. -/
def Piece.nesting : Piece → Nat
  | .literal _ => 0
  | .one => 1
  | .run => 2
  | .leading => 4
  | .trailing => 1
  | .between => 4
  | .oneOf _ ranges => 1 + levelFor (ranges.map rangeItems).sum
  | .choice branches => 1 + levelFor branches.length + nestingOfBranches branches

/-- How many levels the pieces of a list have at most. -/
def nestingOfPieces : List Piece → Nat
  | [] => 0
  | p :: r => max p.nesting (nestingOfPieces r)

/-- How many levels one of several lists of pieces has at most. -/
def nestingOfBranches : List (List Piece) → Nat
  | [] => 0
  | b :: r => max (levelFor (b.map Piece.parts).sum + nestingOfPieces b) (nestingOfBranches r)

end

/-- The largest number of levels of an expression. -/
def maxNesting : Nat := 250

/-- Whether a pattern nests too deep. -/
def isTooDeep (pieces : List Piece) : Bool :=
  maxNesting < 1 + nestingOfPieces pieces

end Glob
end ReleaseLint
