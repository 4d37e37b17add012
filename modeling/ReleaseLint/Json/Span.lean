/-
# Balanced spans

The stretches of a text that begin with an opening brace and end with the brace that
closes it.  Braces inside string literals do not count; a literal ends at a quote
that no backslash precedes.  Every opening brace begins a stretch of its own, read as
if it stood outside a literal, so that text in front of an object cannot hide it.

A scan from one brace also finds what closes the braces that it passes, and writes it
down.  Scans from later braces make use of that, so that a text is not read over again
for each of its braces:

| brace that a scan meets | step |
| --- | --- |
| nothing is known of it | one more open brace |
| closed | on behind its closing brace |
| never closed | neither is any open brace |
-/

import ReleaseLint.Text.Blank

namespace ReleaseLint
namespace Json

/-- What is known of the braces of a text, by their places: nothing, that a brace is
never closed, or the place of the brace that closes it. -/
structure Matches where
  known : Array (Option (Option Nat))

namespace Matches

/-- Nothing is known of a text of length `n`. -/
def ofLength (n : Nat) : Matches := ⟨.replicate n none⟩

/-- What is known of the brace at a place. -/
def find? (m : Matches) (i : Nat) : Option (Option Nat) :=
  m.known.getD i none

/-- Write down where the brace at a place is closed. -/
def record (m : Matches) (i : Nat) (last : Option Nat) : Matches :=
  ⟨m.known.setIfInBounds i (some last)⟩

/-- Write down that some braces are never closed. -/
def recordOpen (m : Matches) (opened : List Nat) : Matches :=
  opened.foldl (fun m i => m.record i none) m

end Matches

/-- How a scan reads the next character. -/
inductive Mode where
  | plain
  | quoted
  | escaped
deriving DecidableEq, Repr, Inhabited

/-- The mode behind a character of a string literal. -/
def Mode.next (c : Char) : Mode :=
  if c = '\\' then .escaped else if c = '"' then .plain else .quoted

/-- Scan a text from the place `i`, with the braces `opened`, the innermost first, until
the outermost is closed.  The first `skip` characters do not count. -/
def scan (m : Matches) (opened : List Nat) : (mode : Mode) → (skip i : Nat) → List Char → Matches
  | _, _, _, [] => m.recordOpen opened
  | mode, skip + 1, i, _ :: r => scan m opened mode skip (i + 1) r
  | .escaped, 0, i, _ :: r => scan m opened .quoted 0 (i + 1) r
  | .quoted, 0, i, c :: r => scan m opened (Mode.next c) 0 (i + 1) r
  | .plain, 0, i, c :: r =>
    if c = '"' then scan m opened .quoted 0 (i + 1) r
    else if c = '\x7b' then
      match m.find? i with
      | some (some last) => scan m opened .plain (last - i) (i + 1) r
      | some none => m.recordOpen opened
      | none => scan m (i :: opened) .plain 0 (i + 1) r
    else if c = '\x7d' then
      match opened with
      | [] => scan m [] .plain 0 (i + 1) r
      | [outermost] => m.record outermost (some i)
      | innermost :: opened => scan (m.record innermost (some i)) opened .plain 0 (i + 1) r
    else scan m opened .plain 0 (i + 1) r

/-- What scans from all braces of a text find that nothing is known of before; the text
begins at the place `i`. -/
def matchesFrom (m : Matches) (i : Nat) : List Char → Matches
  | [] => m
  | c :: r =>
    matchesFrom (if c = '\x7b' ∧ m.find? i = none then scan m [] .plain 0 i (c :: r) else m)
      (i + 1) r

/-- The spans of a text that begins at the place `i`. -/
def spansFrom (m : Matches) (i : Nat) : List Char → List (List Char)
  | [] => []
  | c :: r =>
    match m.find? i with
    | some (some last) => (c :: r).take (last + 1 - i) :: spansFrom m (i + 1) r
    | _ => spansFrom m (i + 1) r

/-- The balanced spans of a text in the order of their opening braces. -/
def spans (s : String) : List String :=
  let m := matchesFrom (.ofLength s.toList.length) 0 s.toList
  (spansFrom m 0 s.toList).map String.ofList

end Json
end ReleaseLint
