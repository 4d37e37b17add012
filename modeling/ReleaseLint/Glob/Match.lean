/-
# Matching paths against patterns

A pattern is matched against the bytes of a path.  Each piece turns the text that is
left into the texts that can be left behind it; a path matches when nothing can be
left behind all pieces.
-/

import ReleaseLint.Glob.Pattern

namespace ReleaseLint
namespace Glob

/-- The bytes of a path. -/
abbrev Bytes := List UInt8

/-- The byte of a slash. -/
def slash : UInt8 := 0x2F

/-- The bytes of a text. -/
def bytesOf (s : String) : Bytes :=
  s.toUTF8.toList

/-- The bytes of a character. -/
def bytesOfChar (c : Char) : Bytes :=
  bytesOf (String.ofList [c])

/-- Every end of a text, itself first. -/
def ends : Bytes → List Bytes
  | [] => [[]]
  | b :: r => (b :: r) :: ends r

/-- The ends of a text that only bytes other than slashes precede. -/
def endsInSegment : Bytes → List Bytes
  | [] => [[]]
  | b :: r => (b :: r) :: (if b = slash then [] else endsInSegment r)

/-- The ends of a text that follow a slash. -/
def endsAfterSlash : Bytes → List Bytes
  | [] => []
  | b :: r => (if b = slash then [r] else []) ++ endsAfterSlash r

/-- What follows the bytes `p`, if a text begins with them. -/
def after? : (p : Bytes) → Bytes → Option Bytes
  | [], s => some s
  | a :: p, b :: s => if a = b then after? p s else none
  | _ :: _, [] => none

/-- Whether a byte belongs to a range of characters.  A character beyond ASCII
counts byte by byte: the range runs from the last byte of the first character to the
first byte of the last one, and the other bytes stand for themselves. -/
def inRange (b : UInt8) (range : Char × Char) : Bool :=
  let lo := bytesOfChar range.1
  let hi := bytesOfChar range.2
  if range.1 = range.2 then lo.contains b
  else
    lo.dropLast.contains b || hi.tail.contains b ||
      (lo.getLast?.getD 0 ≤ b && b ≤ hi.head?.getD 0)

/-- Whether a byte belongs to a class. -/
def inClass (negated : Bool) (ranges : List (Char × Char)) (b : UInt8) : Bool :=
  ranges.any (inRange b) != negated

/-- The text behind one byte that satisfies `p`. -/
def afterByte (p : UInt8 → Bool) : Bytes → List Bytes
  | b :: r => if p b then [r] else []
  | [] => []

mutual

/-- What can be left of a text behind a piece. -/
def Piece.left (s : Bytes) : Piece → List Bytes
  | .literal c => (after? (bytesOfChar c) s).toList
  | .one => afterByte (· != slash) s
  | .run => endsInSegment s
  | .leading => s :: endsAfterSlash s
  | .trailing => (afterByte (· == slash) s).flatMap ends
  | .between => (afterByte (· == slash) s).flatMap fun r => r :: endsAfterSlash r
  | .oneOf negated ranges => afterByte (inClass negated ranges) s
  | .choice branches => leftOfBranches s branches

/-- What can be left of any of several texts behind all pieces of a list. -/
def leftOfAll (texts : List Bytes) : List Piece → List Bytes
  | [] => texts
  | p :: r => leftOfAll ((texts.flatMap fun s => p.left s).eraseDups) r

/-- What can be left of a text behind one of several lists of pieces. -/
def leftOfBranches (s : Bytes) : List (List Piece) → List Bytes
  | [] => []
  | b :: r => leftOfAll [s] b ++ leftOfBranches s r

end

/-- Whether a path matches a list of pieces; `**` alone matches everything. -/
def isMatch (pieces : List Piece) (path : String) : Bool :=
  match pieces with
  | [.leading] => true
  | pieces => (leftOfAll [bytesOf path] pieces).contains []

end Glob
end ReleaseLint
