/-
# Reports of `preflight` and `support-bundle`

    report := results: [file]                                        required
    file   := filePath, errors, warnings, infos: [issue] or null
    issue  := line, column, message, field

An issue is shown as `line N: message (field: F)`, without a line that is zero and
without a field that is empty.
-/

import ReleaseLint.Finding.Embedded

namespace ReleaseLint
namespace Finding
namespace Troubleshoot

/-- An issue of a report. -/
structure Issue where
  line : Nat
  column : Nat
  message : String
  field : String
deriving DecidableEq, Repr, Inhabited

/-- The issues of a file. -/
structure File where
  path : String
  errors : List Issue
  warnings : List Issue
  infos : List Issue
deriving DecidableEq, Repr, Inhabited

/-- A report: the files that were linted. -/
abbrev Report := List File

/-- The text of an issue. -/
def Issue.text (i : Issue) : String :=
  let message := if i.line = 0 then i.message else s!"line {i.line}: {i.message}"
  if i.field = "" then message else s!"{message} (field: {i.field})"

/-- The findings of a file. -/
def File.findings (f : File) : List Finding :=
  ofBuckets f.path Issue.text f.errors f.warnings f.infos

/-- Read an issue. -/
def Issue.ofJson (j : Json) : Except Json.Fault Issue := do
  match ← Json.fields ["line", "column", "message", "field"] j with
  | [line, column, message, field] =>
    return {
      line := ← Json.orDefault 0 Json.asUnsigned line
      column := ← Json.orDefault 0 Json.asUnsigned column
      message := ← Json.orDefault "" Json.asText message
      field := ← Json.orDefault "" Json.asText field }
  | _ => .error (.unexpected "an issue")

/-- Read a file. -/
def File.ofJson (j : Json) : Except Json.Fault File := do
  let issues := Json.orDefault [] (Json.asListOrNull Issue.ofJson)
  match ← Json.fields ["filePath", "errors", "warnings", "infos"] j with
  | [path, errors, warnings, infos] =>
    return {
      path := ← Json.orDefault "" Json.asText path
      errors := ← issues errors
      warnings := ← issues warnings
      infos := ← issues infos }
  | _ => .error (.unexpected "a file")

/-- Read a report. -/
def Report.ofJson (j : Json) : Except Json.Fault Report := do
  match ← Json.fields ["results"] j with
  | [some results] => Json.asList File.ofJson results
  | _ => .error (.missing "results")

/-- The findings of an output. -/
def ofOutput (output : String) : Except Fault (List Finding) :=
  match ofAnySpan Report.ofJson output with
  | .ok files => .ok (files.flatMap File.findings)
  | .error f => .error f

end Troubleshoot
end Finding
end ReleaseLint
