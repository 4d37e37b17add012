/-
# Reports of `kots`

    report     := lintExpressions: [expression] or null, isLintingComplete
    expression := rule, type, message, path, positions: [position] or null
    position   := start: { line }

An expression is shown as `[rule] line N: message`, without a rule that is empty and
without a first line that is not positive.  Types other than `error` and `warn`, in
either case of letters, are informative.  A blank output is an empty report.
-/

import ReleaseLint.Finding.Embedded
import ReleaseLint.Text.Lowercase

namespace ReleaseLint
namespace Finding
namespace Kots

/-- A finding of a report; `lines` are the lines at which its positions start. -/
structure Expression where
  rule : String
  type : String
  message : String
  path : String
  lines : List Int
deriving DecidableEq, Repr, Inhabited

/-- A report: its expressions. -/
abbrev Report := List Expression

/-- The severity of a type. -/
def severityOf (type : String) : Severity :=
  let type := Text.asciiLowercase type
  if type = "error" then .error else if type = "warn" then .warning else .info

/-- The text of an expression. -/
def Expression.text (e : Expression) : String :=
  let message :=
    match e.lines.head? with
    | some line => if 0 < line then s!"line {line}: {e.message}" else e.message
    | none => e.message
  if e.rule = "" then message else s!"[{e.rule}] {message}"

/-- The finding of an expression. -/
def Expression.finding (e : Expression) : Finding :=
  ⟨severityOf e.type, e.path, e.text⟩

/-- Read the start of a position: its line. -/
def lineOfStart (j : Json) : Except Json.Fault Int := do
  match ← Json.fields ["line"] j with
  | [line] => Json.orDefault 0 Json.asSigned line
  | _ => .error (.unexpected "a start")

/-- Read a position: the line at which it starts. -/
def lineOfPosition (j : Json) : Except Json.Fault Int := do
  match ← Json.fields ["start"] j with
  | [start] => Json.orDefault 0 lineOfStart start
  | _ => .error (.unexpected "a position")

/-- Read an expression. -/
def Expression.ofJson (j : Json) : Except Json.Fault Expression := do
  let text := Json.orDefault "" Json.asText
  match ← Json.fields ["rule", "type", "message", "path", "positions"] j with
  | [rule, type, message, path, positions] =>
    return {
      rule := ← text rule
      type := ← text type
      message := ← text message
      path := ← text path
      lines := ← Json.orDefault [] (Json.asListOrNull lineOfPosition) positions }
  | _ => .error (.unexpected "an expression")

/-- Read a report. -/
def Report.ofJson (j : Json) : Except Json.Fault Report := do
  match ← Json.fields ["lintExpressions", "isLintingComplete"] j with
  | [expressions, complete] =>
    let expressions ← Json.orDefault [] (Json.asListOrNull Expression.ofJson) expressions
    let _ ← Json.orDefault false Json.asBool complete
    return expressions
  | _ => .error (.unexpected "a report")

/-- The findings of an output. -/
def ofOutput (output : String) : Except Fault (List Finding) :=
  if Text.allBlank output then .ok []
  else
    match ofSoundSpan Report.ofJson output with
    | .ok expressions => .ok (expressions.map Expression.finding)
    | .error f => .error f

end Kots
end Finding
end ReleaseLint
