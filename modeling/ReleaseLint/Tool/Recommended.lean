/-
# Recommended versions

A document that gives a version for each of several tools:

    document := client_versions: version for each key

The key of a tool is its name with underscores.  A version counts without blanks at
its ends and without letters `v` in front; an empty one is none.
-/

import ReleaseLint.Json.Decode
import ReleaseLint.Tool.Basic

namespace ReleaseLint
namespace Tool

/-- Versions by key; of several with one key, the last one counts. -/
structure Recommended where
  versions : List (String × String)
deriving DecidableEq, Repr, Inhabited

namespace Recommended

/-- The version of a tool. -/
def version? (r : Recommended) (t : Tool) : Option String := do
  let (_, version) ← r.versions.reverse.find? (·.1 == t.key)
  let text := Text.dropLeadingV (Text.trim version)
  if text = "" then none else some text

/-- Read versions by key. -/
def entriesOf : Json → Except Json.Fault (List (String × String))
  | .object members => members.mapM fun (key, value) => do
    match key with
    | some key => return (key, ← Json.asText value)
    | none => throw .syntaxError
  | _ => .error (.unexpected "a map")

/-- Read a document. -/
def ofJson (j : Json) : Except Json.Fault Recommended := do
  match ← Json.fields ["client_versions"] j with
  | [versions] => return ⟨← Json.orDefault [] entriesOf versions⟩
  | _ => .error (.unexpected "versions")

/-- The document that a text writes. -/
def ofText (s : String) : Except Json.Misfit Recommended :=
  Json.decode ofJson s

end Recommended
end Tool
end ReleaseLint
