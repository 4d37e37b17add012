/-
# Findings in the output of `helm`

| line, without blanks at its ends | finding |
| --- | --- |
| `[S] path: message` | with the path |
| `[S] message` | without a path |
| any other | none |

`S` is a severity, with blanks behind it.  The path runs up to the first colon and
is not empty; a colon at the end of the line divides nothing.
-/

import ReleaseLint.Finding.Basic
import ReleaseLint.Text.Blank

namespace ReleaseLint
namespace Finding
namespace Helm

/-- The severity in brackets in front of a line, and what follows. -/
def tagged? (line : List Char) : Option (Severity × List Char) :=
  Severity.all.findSome? fun s =>
    let tag := ['['] ++ s.tag.toList ++ [']']
    if tag.isPrefixOf line then some (s, line.drop tag.length) else none

/-- The path and the message that the first colon of a text divides. -/
def divide? (text : List Char) : Option (List Char × List Char) :=
  match text.dropWhile (· != ':') with
  | [] => none
  | _ :: after =>
    let path := text.takeWhile (· != ':')
    if path.isEmpty || after.isEmpty then none else some (path, after)

/-- The finding of what follows the tag of a line.  One blank at least divides the
tag from the rest; a second one may stand for an empty path. -/
def ofBody? (severity : Severity) (body : List Char) : Option Finding :=
  let text (s : List Char) : String := String.ofList (Text.trimChars s)
  let rest := body.dropWhile Text.isBlank
  let blanks := body.length - rest.length
  if blanks = 0 || rest.isEmpty then none
  else if rest.head? = some ':' && 2 ≤ blanks && 2 ≤ rest.length then
    some ⟨severity, "", text rest.tail⟩
  else
    match divide? rest with
    | some (path, message) => some ⟨severity, text path, text message⟩
    | none => some ⟨severity, "", text rest⟩

/-- The finding of a line. -/
def ofLine? (line : List Char) : Option Finding := do
  let (severity, body) ← tagged? (Text.trimChars line)
  ofBody? severity body

/-- The findings of an output, in the order of its lines. -/
def ofOutput (output : String) : List Finding :=
  (Text.lineChars output.toList).filterMap ofLine?

end Helm
end Finding
end ReleaseLint
