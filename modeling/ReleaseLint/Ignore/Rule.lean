/-
# Rules of ignore files

Each line of an ignore file is a rule, a comment, or blank.

| line | rule |
| --- | --- |
| `#…` | none |
| `!…` | what it matches is not ignored after all |
| `\!…`, `\#…` | the character behind the backslash begins the pattern |
| `/…` | matches from the directory of the file on |
| `…/` | matches directories only |
| with a slash inside | matches from the directory of the file on |
| any other | matches at any depth |

Blanks at the end do not count, unless the last one follows a backslash.  A pattern
that ends with `/**` matches what lies below a directory, but not the directory.
A pattern that cannot be read is no rule.
-/

import ReleaseLint.Glob.Match

namespace ReleaseLint
namespace Ignore

/-- A rule of an ignore file. -/
structure Rule where
  pieces : List Glob.Piece
  reincludes : Bool
  directoriesOnly : Bool
deriving Repr, Inhabited

namespace Rule

/-- What the beginning of a line says: whether it takes back, whether it is bound to
the directory of the file, and the pattern. -/
def leader : List Char → Bool × Bool × List Char
  | '\\' :: '!' :: r => (false, false, '!' :: r)
  | '\\' :: '#' :: r => (false, false, '#' :: r)
  | '!' :: '/' :: r => (true, true, r)
  | '!' :: r => (true, false, r)
  | '/' :: r => (false, true, r)
  | r => (false, false, r)

/-- What the end of a pattern says: whether it is for directories only, and the
pattern without the slash, and without a backslash before it. -/
def trailer (s : List Char) : Bool × List Char :=
  if s.getLast? = some '/' then
    let s := s.dropLast
    (true, if s.getLast? = some '\\' then s.dropLast else s)
  else (false, s)

/-- A pattern without a slash matches at any depth. -/
def float (bound : Bool) (s : List Char) : List Char :=
  if bound || s.contains '/' || s = ['*', '*'] then s else ['*', '*', '/'] ++ s

/-- A pattern for everything below a directory does not match the directory. -/
def descend (s : List Char) : List Char :=
  if ['/', '*', '*'].isSuffixOf s then s ++ ['/', '*'] else s

/-- A line without the blanks at its end, if they do not count. -/
def trimLine (line : List Char) : List Char :=
  if ['\\', ' '].isSuffixOf line then line else Text.dropEndChars Text.isBlank line

/-- The rule of a line. -/
def ofLine? (line : List Char) : Option Rule :=
  let body := trimLine line
  if line.head? = some '#' || body.isEmpty then none
  else
    let (reincludes, bound, pattern) := leader body
    let (directoriesOnly, pattern) := trailer pattern
    match Glob.parse .ignore (String.ofList (descend (float bound pattern))) with
    | .ok pieces => some ⟨pieces, reincludes, directoriesOnly⟩
    | .error _ => none

/-- Whether a rule matches a path as seen from the directory of its file. -/
def isMatch (r : Rule) (path : String) (isDirectory : Bool) : Bool :=
  (isDirectory || !r.directoriesOnly) && Glob.isMatch r.pieces path

end Rule
end Ignore
end ReleaseLint
