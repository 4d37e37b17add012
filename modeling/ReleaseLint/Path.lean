/-
# Paths

A path is a text whose segments are separated by slashes.  Its meaning is the
list of its segments; repeated slashes, a slash at the end and dots other than a
leading one do not count.

| text | segments |
| --- | --- |
| `/a//b/` | root, `a`, `b` |
| `./a/./b` | here, `a`, `b` |
| `a/../b` | `a`, parent, `b` |

`clean` drops the dots and lets each parent segment undo the name before it,
without looking at any tree.
-/

namespace ReleaseLint

/-- One segment of a path. -/
inductive Segment where
  | root
  | here
  | parent
  | name (s : String)
deriving DecidableEq, Repr, Inhabited

namespace Segment

/-- The text of a segment. -/
def text : Segment → String
  | root => "/"
  | here => "."
  | parent => ".."
  | name s => s

/-- The place of a kind of segment in the order of paths. -/
def rank : Segment → Nat
  | root => 0
  | here => 1
  | parent => 2
  | name _ => 3

/-- Segments in the order root, here, parent, names; names by their characters. -/
def compare : Segment → Segment → Ordering
  | name a, name b => Ord.compare a b
  | a, b => Ord.compare a.rank b.rank

end Segment

/-- A path as it is written. -/
structure Path where
  text : String
deriving DecidableEq, Repr, Inhabited

namespace Path

/-- Whether a path begins at the root. -/
def isAbsolute (p : Path) : Bool :=
  p.text.toList.head? == some '/'

/-- The segment that a piece between slashes stands for, when it is not the
first one of a relative path. -/
def segment? (piece : List Char) : Option Segment :=
  if piece = [] ∨ piece = ['.'] then none
  else if piece = ['.', '.'] then some .parent
  else some (.name (String.ofList piece))

/-- The segments of a list of characters. -/
def segmentsOf (s : List Char) : List Segment :=
  match s.splitOn '/' with
  | [] => []
  | first :: rest =>
    let below := rest.filterMap segment?
    if first = [] then (if rest = [] then [] else .root :: below)
    else if first = ['.'] then .here :: below
    else (segment? first).toList ++ below

/-- The segments of a path. -/
def segments (p : Path) : List Segment :=
  segmentsOf p.text.toList

/-- `a` followed by `b`; an absolute `b` stands alone. -/
def join (a : Path) (b : String) : Path :=
  if b.toList.head? = some '/' ∨ a.text = "" then ⟨b⟩
  else if a.text.toList.getLast? = some '/' then ⟨a.text ++ b⟩
  else ⟨a.text ++ "/" ++ b⟩

instance : HDiv Path String Path := ⟨join⟩

/-- The path that a list of segments writes. -/
def ofSegments (segments : List Segment) : Path :=
  segments.foldl (fun p s => p / s.text) ⟨""⟩

/-- Follow one more segment: a dot stays, a parent undoes the name before it,
stays at the root and is kept otherwise.  `back` holds the way so far, reversed. -/
def follow (back : List Segment) : Segment → List Segment
  | .here => back
  | .parent =>
    match back with
    | .name _ :: r => r
    | .root :: r => .root :: r
    | r => .parent :: r
  | s => s :: back

/-- The segments without dots and without parents that follow a name. -/
def cleanSegments (segments : List Segment) : List Segment :=
  (segments.foldl follow []).reverse

/-- The shortest path with the same lexical meaning; the empty one is a dot. -/
def clean (p : Path) : Path :=
  match cleanSegments p.segments with
  | [] => ⟨"."⟩
  | segments => ofSegments segments

/-- `value` as seen from the directory `base`, cleaned. -/
def anchor (base : Path) (value : String) : Path :=
  (base / value).clean

/-- Paths in the order of their segments. -/
def compare (a b : Path) : Ordering :=
  go a.segments b.segments
where
  /-- Lists of segments in lexicographic order. -/
  go : List Segment → List Segment → Ordering
    | [], [] => .eq
    | [], _ :: _ => .lt
    | _ :: _, [] => .gt
    | a :: r, b :: s => (Segment.compare a b).then (go r s)

/-- Whether `a` comes before `b` or at its place. -/
def le (a b : Path) : Bool :=
  compare a b != .gt

/-- Whether two paths have the same segments. -/
def same (a b : Path) : Bool :=
  a.segments == b.segments

/-- The segments of `p` below the path `top`, when `p` lies at or below it. -/
def below? (p top : Path) : Option (List Segment) :=
  if top.segments.isPrefixOf p.segments then some (p.segments.drop top.segments.length) else none

/-- The last segment, when it is a name. -/
def fileName? (p : Path) : Option String :=
  match p.segments.getLast? with
  | some (.name s) => some s
  | _ => none

/-- The pieces of a path without those at its end that name no segment. -/
def dropIdle (pieces : List (List Char)) : List (List Char) :=
  (pieces.reverse.dropWhile fun piece => piece = [] ∨ piece = ['.']).reverse

/-- The pieces that are left when `n` segments are taken from the front. -/
def dropSegments : (n : Nat) → (first : Bool) → List (List Char) → List (List Char)
  | 0, _, pieces => pieces
  | _, _, [] => []
  | n + 1, first, piece :: r =>
    let counts := piece = ['.', '.'] ∨ (segment? piece).isSome ∨ first
    if counts then dropSegments n false r else dropSegments (n + 1) false r

/-- What is written behind the segments of `top`, when `p` lies at or below it. -/
def after? (p top : Path) : Option String :=
  (p.below? top).map fun _ =>
    let pieces := dropSegments top.segments.length true (p.text.toList.splitOn '/')
    let idle (piece : List Char) : Bool := piece = [] ∨ piece = ['.']
    String.ofList (List.intercalate ['/'] (dropIdle (pieces.dropWhile idle)))

/-- The path without its last segment; there is none for a root and for the
empty path. -/
def parent? (p : Path) : Option Path :=
  match p.segments with
  | [] => none
  | [.root] => none
  | [_] => some ⟨""⟩
  | [.root, _] => some ⟨"/"⟩
  | _ =>
    let pieces := dropIdle (dropIdle (p.text.toList.splitOn '/')).dropLast
    match pieces with
    | [] => if p.isAbsolute then some ⟨"/"⟩ else some ⟨"."⟩
    | pieces => some ⟨String.ofList (List.intercalate ['/'] pieces)⟩

/-- The directories from a path up to its root, the path first. -/
def ancestors (p : Path) : List Path :=
  go p.segments.length p
where
  /-- At most `n` steps upwards from `p`. -/
  go : Nat → Path → List Path
    | 0, p => [p]
    | n + 1, p =>
      match p.parent? with
      | none => [p]
      | some q => p :: go n q

/-- What follows the last dot of the file name; a name that only begins with a
dot has no extension. -/
def extension? (p : Path) : Option String :=
  match p.fileName? with
  | none => none
  | some name =>
    let s := name.toList
    let tail := (s.reverse.takeWhile (· != '.')).reverse
    if tail.length + 1 < s.length then some (String.ofList tail) else none

end Path
end ReleaseLint
