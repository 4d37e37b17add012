/-
# What a repository ignores

The rules that apply to a directory of a repository: `.git/info/exclude`, then the
files `.gitignore` from the root of the repository down to the directory.  The last
rule that matches decides, and what lies below an ignored directory is ignored.

A file with a rule that nests too deep is refused as a whole.

A configured pattern may name ignored content on purpose; then its matches are not
filtered.
-/

import ReleaseLint.Glob.Nesting
import ReleaseLint.Ignore.Rule
import ReleaseLint.Tree

namespace ReleaseLint
namespace Ignore

/-- An ignore file: where it applies, its rules, and its patterns as they are written. -/
structure Source where
  directory : Path
  rules : List Rule
  patterns : List String
deriving Inhabited

namespace Source

/-- A line that a line feed ends, without one carriage return at its end. -/
def stripReturn (line : List UInt8) : List UInt8 :=
  if line.getLast? = some 13 then line.dropLast else line

/-- The lines of a file up to the first one that is no text. -/
def readableLines (data : ByteArray) : List (List Char) :=
  let pieces := data.toList.splitOn (10 : UInt8)
  let rest := pieces.getLast?.getD []
  let pieces := pieces.dropLast.map stripReturn ++ if rest.isEmpty then [] else [rest]
  let texts := pieces.map fun bytes => String.fromUTF8? ⟨bytes.toArray⟩
  (texts.takeWhile Option.isSome).filterMap fun text => text.map (·.toList)

/-- The lines without byte order marks in front of the first one. -/
def dropMarks : List (List Char) → List (List Char)
  | [] => []
  | first :: r => first.dropWhile (· == '\ufeff') :: r

/-- The patterns of a text that are neither comments nor taken back. -/
def patternsOf (content : String) : List String :=
  ((Text.lines content).map Text.trim).filter fun line =>
    line != "" && !Text.beginsWith line "#" && !Text.beginsWith line "!"

/-- The ignore file with this content. -/
def ofData (directory : Path) (data : ByteArray) : Source where
  directory := directory
  rules := (dropMarks (readableLines data)).filterMap Rule.ofLine?
  patterns := ((String.fromUTF8? data).map patternsOf).getD []

/-- What the last matching rule of a file says about a path at or below its
directory: whether it is ignored. -/
def verdict? (s : Source) (p : Path) (isDirectory : Bool) : Option Bool := do
  let names ← p.below? s.directory
  let relative := "/".intercalate (names.map (·.text))
  let rule ← s.rules.reverse.find? (·.isMatch relative isDirectory)
  return !rule.reincludes

end Source

/-- The rules of a repository that apply to a directory, the weakest file first. -/
structure Checker where
  root : Path
  sources : List Source
deriving Inhabited

/-- The nearest directory at or above a path that holds `.git`. -/
def repositoryRoot? (w : Workspace) (start : Path) : Option Path :=
  start.ancestors.find? fun d => w.has (d / ".git")

/-- The directories from `root` along some segments, `root` first. -/
def directoriesAlong (root : Path) : List Segment → List Path
  | [] => [root]
  | s :: r => root :: directoriesAlong (root / s.text) r

namespace Checker

/-- The ignore file at a path, if there is one; the path, if the file is refused. -/
def source? (w : Workspace) (directory file : Path) : Except Path (Option Source) :=
  if w.hasFile file then
    let s := Source.ofData directory ((w.read file).toOption.getD .empty)
    if s.rules.any fun r => Glob.isTooDeep r.pieces then .error file else .ok (some s)
  else .ok none

/-- The checker for a directory, or the ignore file that is refused.  There is no
checker outside of repositories, nor where no ignore file applies. -/
def load (w : Workspace) (base : Path) : Except Path (Option Checker) := do
  let base := w.absolutize base
  match repositoryRoot? w base with
  | none => return none
  | some root =>
    let exclude ← source? w root (root / ".git" / "info" / "exclude")
    let directories := directoriesAlong root ((base.below? root).getD [])
    let files ← directories.mapM fun d => source? w d (d / ".gitignore")
    let sources := (exclude :: files).filterMap id
    return if sources.isEmpty then none else some ⟨root, sources⟩

/-- What the last matching rule of all files says about a path itself. -/
def isExcluded (c : Checker) (p : Path) (isDirectory : Bool) : Bool :=
  ((c.sources.filterMap fun s => s.verdict? p isDirectory).getLast?).getD false

/-- Whether a path that lies at some segments below the root, the last one first, is
excluded, or a directory above it is. -/
def isExcludedBelow (c : Checker) : (back : List Segment) → (isDirectory : Bool) → Bool
  | [], _ => false
  | s :: r, isDirectory =>
    c.isExcluded (Path.ofSegments (c.root.segments ++ (s :: r).reverse)) isDirectory ||
      isExcludedBelow c r true

/-- Whether a path is ignored.  Paths outside of the repository are not. -/
def ignores (w : Workspace) (c : Checker) (p : Path) : Bool :=
  let path := w.absolutize p
  match path.below? c.root with
  | some segments => c.isExcludedBelow segments.reverse (w.hasDirectory path)
  | none => false

/-- Every pattern of the ignore files that is not taken back. -/
def patterns (c : Checker) : List String :=
  c.sources.flatMap (·.patterns)

/-- The lists that a list begins with, other than the empty one. -/
def leads {α : Type} : List α → List (List α)
  | [] => []
  | a :: r => [a] :: (leads r).map (a :: ·)

/-- A text without any `./` in front. -/
def dropHere : List Char → List Char
  | '.' :: '/' :: r => dropHere r
  | s => s

/-- Whether a configured path, split at its slashes, names what an ignore pattern is
about. -/
def isNamedBy (path : String) (parts : List String) (pattern : String) : Bool :=
  let isSlash (c : Char) : Bool := c == '/'
  let pattern := Text.dropStart isSlash (Text.dropEnd isSlash pattern)
  let stem := Text.dropEnd (· == '*') pattern
  pattern != "" &&
    (parts.any (fun part => !Glob.isPattern part && part == pattern) ||
      (leads parts).any (fun lead => "/".intercalate lead == pattern) ||
      path == pattern || Text.beginsWith path (pattern ++ "/") ||
      (Glob.isPattern pattern && stem != "" && Text.contains path stem))

/-- Whether a configured pattern names ignored content on purpose. -/
def isBypassedBy (c : Checker) (configured : String) : Bool :=
  let relative := ((Path.mk configured).after? c.root).getD (Path.mk configured).clean.text
  let path := String.ofList (dropHere (Text.replaceChar '\\' '/' relative).toList)
  let parts := ((path.toList.splitOn '/').filter (!·.isEmpty)).map String.ofList
  c.patterns.any (isNamedBy path parts)

end Checker
end Ignore
end ReleaseLint
