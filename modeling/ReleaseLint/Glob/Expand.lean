/-
# The paths that a pattern stands for

A pattern is split before its first segment with a wildcard: the base is looked up,
and the tail is matched against everything below it.

| below the base | |
| --- | --- |
| names that begin with a dot | never match, nor does what lies below them |
| links | match unless files are asked for, and are not followed |
| what is ignored | does not match, nor does what lies below it |

A tail without `**` matches only as deep as it is long.  A pattern without wildcards
stands for its path, if anything is there.  The paths are absolute and in order.
-/

import ReleaseLint.Error
import ReleaseLint.Glob.Match
import ReleaseLint.Ignore.Checker

namespace ReleaseLint
namespace Glob

/-- The pieces of a search pattern. -/
def compile (pattern : String) : Except Error (List Piece) :=
  match parse .search pattern with
  | .ok pieces => .ok pieces
  | .error fault => .error (.glob pattern fault)

/-- Whether a pattern climbs above the directory at which it starts. -/
def climbs (pattern : String) : Bool :=
  (Path.mk pattern).clean.segments.head? == some .parent

/-- Refuse a pattern that cannot be read or that climbs. -/
def check (pattern : String) : Except Error Unit := do
  let _ ← compile pattern
  if climbs pattern then throw (.traversal pattern)

/-- Whether a segment of a path, other than dots alone, begins with a dot. -/
def isHidden (p : Path) : Bool :=
  p.segments.any fun
    | .name s => s.toList.head? == some '.'
    | _ => false

/-- The segments before the first one with a wildcard, and the texts of the others. -/
def split (segments : List Segment) : List Segment × List String :=
  (segments.takeWhile fun s => !isPattern s.text,
    (segments.dropWhile fun s => !isPattern s.text).map (·.text))

/-- The base of a pattern; the empty one is the directory from which it is seen. -/
def baseOf (segments : List Segment) : Path :=
  if segments.isEmpty then ⟨"."⟩ else .ofSegments segments

/-- What is asked for besides the pattern. -/
structure Filter where
  filesOnly : Bool
  checker : Option Ignore.Checker
deriving Inhabited

/-- Whether a filter drops a path that is ignored. -/
def Filter.ignores (f : Filter) (w : Workspace) (p : Path) : Bool :=
  f.checker.any fun c => c.ignores w p

/-- The path at some names below a base. -/
def pathBelow (base : Path) (names : Names) : Path :=
  names.foldl (· / ·) base

/-- Whether a walk from `base` passes the directories that lead to some names, and
the entry there: none is hidden, and no directory is ignored. -/
def isVisited (w : Workspace) (f : Filter) (base : Path) (isDirectory : Bool) : Names → Bool
  | [] => true
  | s :: r =>
    let here := base / s
    s.toList.head? != some '.' &&
      !((!r.isEmpty || isDirectory) && f.ignores w here) &&
      isVisited w f here isDirectory r

/-- The depth to which a tail can match; `none` stands for any. -/
def depth? (tail : List String) : Option Nat :=
  if tail.any fun s => Text.contains s "**" then none else some tail.length

/-- The paths below the directory `base` that a tail matches. -/
def matchesBelow (w : Workspace) (f : Filter) (base : Path) (tail : List String)
    (pieces : List Piece) : List Path :=
  match w.tree.locate base with
  | .error _ => []
  | .ok top =>
    let found := (w.tree.below top).filter fun (names, node) =>
      (depth? tail).all (names.length ≤ ·) && (!f.filesOnly || node.isFile) &&
        isMatch pieces ("/".intercalate names) &&
        isVisited w f base node.isDirectory names && !f.ignores w (pathBelow base names)
    (found.map fun e => pathBelow base e.1).mergeSort Path.le

/-- The paths that a pattern stands for. -/
def expand (w : Workspace) (f : Filter) (pattern : String) : Except Error (List Path) := do
  check pattern
  let (leading, tail) := split (Path.mk pattern).clean.segments
  let base := w.absolutize (baseOf leading)
  if tail.isEmpty then
    let isKept := w.has base && (!f.filesOnly || w.hasFile base) && !f.ignores w base
    return if isKept then [base] else []
  else if !w.hasDirectory base then return []
  else
    let pieces ← compile ("/".intercalate tail)
    return matchesBelow w f base tail pieces

end Glob
end ReleaseLint
