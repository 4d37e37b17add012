/-
# Reports of `embedded-cluster`

    report := files: [file] or null
    file   := path, valid, errors, warnings, infos: [issue] or null
    issue  := field, message

An issue is shown as `field: message`, without a field that is empty.  A blank
output is a report without files.
-/

import ReleaseLint.Finding.Embedded

namespace ReleaseLint
namespace Finding
namespace EmbeddedCluster

/-- An issue of a report. -/
structure Issue where
  field : String
  message : String
deriving DecidableEq, Repr, Inhabited

/-- The issues of a file. -/
structure File where
  path : String
  valid : Bool
  errors : List Issue
  warnings : List Issue
  infos : List Issue
deriving DecidableEq, Repr, Inhabited

/-- A report: the files that were linted. -/
abbrev Report := List File

/-- The text of an issue. -/
def Issue.text (i : Issue) : String :=
  if i.field = "" then i.message else i.field ++ ": " ++ i.message

/-- The findings of a file. -/
def File.findings (f : File) : List Finding :=
  ofBuckets f.path Issue.text f.errors f.warnings f.infos

/-- Read an issue. -/
def Issue.ofJson (j : Json) : Except Json.Fault Issue := do
  match ← Json.fields ["field", "message"] j with
  | [field, message] =>
    return {
      field := ← Json.orDefault "" Json.asText field
      message := ← Json.orDefault "" Json.asText message }
  | _ => .error (.unexpected "an issue")

/-- Read a file. -/
def File.ofJson (j : Json) : Except Json.Fault File := do
  let issues := Json.orDefault [] (Json.asListOrNull Issue.ofJson)
  match ← Json.fields ["path", "valid", "errors", "warnings", "infos"] j with
  | [path, valid, errors, warnings, infos] =>
    return {
      path := ← Json.orDefault "" Json.asText path
      valid := ← Json.orDefault false Json.asBool valid
      errors := ← issues errors
      warnings := ← issues warnings
      infos := ← issues infos }
  | _ => .error (.unexpected "a file")

/-- Read a report. -/
def Report.ofJson (j : Json) : Except Json.Fault Report := do
  match ← Json.fields ["files"] j with
  | [files] => Json.orDefault [] (Json.asListOrNull File.ofJson) files
  | _ => .error (.unexpected "a report")

/-- The findings of an output. -/
def ofOutput (output : String) : Except Fault (List Finding) :=
  if Text.allBlank output then .ok []
  else
    match ofSoundSpan Report.ofJson output with
    | .ok files => .ok (files.flatMap File.findings)
    | .error f => .error f

end EmbeddedCluster
end Finding
end ReleaseLint
