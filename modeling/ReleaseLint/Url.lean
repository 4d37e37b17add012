/-
# Web addresses

An address is sent in a normal form: tabs and line breaks are left out, as are blanks
and control characters at its ends, dots in its path are followed, and characters that
do not stand for themselves are written as `%` and two digits for each of their bytes.

| part | ends before | escaped besides controls and all but ASCII |
| --- | --- | --- |
| origin | `/`, `\`, `?`, `#` | nothing, it is kept |
| path | `?`, `#` | space, `"`, `<`, `>`, the grave accent, braces |
| query | `#` | space, `"`, `<`, `>`, `'` |
| fragment | | space, `"`, `<`, `>`, the grave accent |

Segments of a path are separated by slashes and backslashes.  A dot, or `%2e` in its
place, stays where it is; two of them undo the segment before, unless it is the name
of a drive.
-/

import ReleaseLint.Text.Utf8

namespace ReleaseLint

/-- The parts of an address. -/
structure Url where
  origin : String
  path : List String
  query : Option String
  fragment : Option String
deriving DecidableEq, Repr, Inhabited

namespace Url

/-- A hexadecimal digit as a capital letter or a number. -/
def hexDigit (n : Nat) : Char :=
  Char.ofNat (if n < 10 then 48 + n else 55 + n)

/-- The bytes of a character, each written as `%` and two digits. -/
def escape (c : Char) : List Char :=
  (String.ofList [c]).toUTF8.toList.flatMap fun b =>
    ['%', hexDigit (b.toNat / 16), hexDigit (b.toNat % 16)]

/-- Characters with those escaped that are one of `marks`, controls, or not ASCII. -/
def escapeAll (marks : List Char) (s : List Char) : List Char :=
  s.flatMap fun c =>
    if c.toNat < 0x20 || 0x7F ≤ c.toNat || marks.contains c then escape c else [c]

/-- What is escaped in a fragment. -/
def fragmentMarks : List Char := [' ', '"', '<', '>', '\x60']

/-- What is escaped in a path. -/
def pathMarks : List Char := fragmentMarks ++ ['\x7b', '\x7d']

/-- What is escaped in a query. -/
def queryMarks : List Char := [' ', '"', '<', '>', '\'']

/-- How many dots a segment consists of, if it consists of dots alone. -/
def dots? : List Char → Option Nat
  | [] => some 0
  | '.' :: r => (dots? r).map (· + 1)
  | '%' :: '2' :: e :: r => if e == 'e' || e == 'E' then (dots? r).map (· + 1) else none
  | _ => none

/-- Whether a segment is the name of a drive. -/
def isDrive : List Char → Bool
  | [a, b] => a.isAlpha && (b == ':' || b == '|')
  | _ => false

/-- The way back up from a path, the last segment of which comes first. -/
def climb : List (List Char) → List (List Char)
  | [] => []
  | s :: r => if isDrive s then s :: r else r

/-- The segments to which a list of segments leads; `back` are those before, the last
one first.  The last segment is empty where the path ends with a slash or with dots. -/
def followDots (back : List (List Char)) : List (List Char) → List (List Char)
  | [] => back.reverse
  | [s] =>
    match dots? s with
    | some 1 => ([] :: back).reverse
    | some 2 => ([] :: climb back).reverse
    | _ => (s :: back).reverse
  | s :: r =>
    match dots? s with
    | some 1 => followDots back r
    | some 2 => followDots (climb back) r
    | _ => followDots (s :: back) r

/-- Whether a character separates segments. -/
def isSlash (c : Char) : Bool :=
  c == '/' || c == '\\'

/-- What stands before the first of some marks, and what follows behind it. -/
def cutAt (marks : List Char) (s : List Char) : List Char × Option (List Char) :=
  (s.takeWhile (!marks.contains ·),
    match s.dropWhile (!marks.contains ·) with
    | [] => none
    | _ :: r => some r)

/-- The segments behind the first slash of a path. -/
def segments (s : List Char) : List (List Char) :=
  (s.splitOnP isSlash).drop 1

/-- The parts of an address behind its scheme and host. -/
def ofRest (origin s : List Char) : Url :=
  let (s, fragment) := cutAt ['#'] s
  let (path, query) := cutAt ['?'] s
  let path := if path.isEmpty then ['/'] else path
  { origin := String.ofList origin
    path := (followDots [] ((segments path).map (escapeAll pathMarks))).map String.ofList
    query := query.map fun q => String.ofList (escapeAll queryMarks q)
    fragment := fragment.map fun f => String.ofList (escapeAll fragmentMarks f) }

/-- The scheme and the host of an address, and what follows. -/
def splitOrigin : List Char → List Char × List Char
  | ':' :: '/' :: '/' :: r =>
    let isEnd (c : Char) : Bool := isSlash c || c == '?' || c == '#'
    (':' :: '/' :: '/' :: r.takeWhile (!isEnd ·), r.dropWhile (!isEnd ·))
  | c :: r => let (a, b) := splitOrigin r; (c :: a, b)
  | [] => ([], [])

/-- Whether a character is left out at the ends of an address. -/
def isEdge (c : Char) : Bool :=
  c.toNat ≤ 0x20

/-- The parts of an address. -/
def ofText (s : String) : Url :=
  let s := ((s.toList.dropWhile isEdge).reverse.dropWhile isEdge).reverse
  let (origin, rest) := splitOrigin (s.filter fun c => c ≠ '\t' ∧ c ≠ '\n' ∧ c ≠ '\r')
  ofRest origin rest

/-- The text of an address. -/
def text (u : Url) : String :=
  u.origin ++ String.join (u.path.map ("/" ++ ·)) ++
    (u.query.map ("?" ++ ·)).getD "" ++ (u.fragment.map ("#" ++ ·)).getD ""

/-- The largest number of bytes of an address that can be sent. -/
def maxSize : Nat := 65534

/-- Whether an address is too long to be sent. -/
def isTooLong (u : Url) : Bool :=
  maxSize < u.text.utf8ByteSize

end Url
end ReleaseLint
