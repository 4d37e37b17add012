/-
# Reports inside an output

A linter prints its JSON report among other text.  Every balanced span of the output
may be the report; what counts is the first one that is sound JSON, or the first one
that has the shape of a report.
-/

import ReleaseLint.Json.Decode
import ReleaseLint.Finding.Basic
import ReleaseLint.Json.Span

namespace ReleaseLint
namespace Finding

/-- Why an output holds no report. -/
inductive Fault where
  | noSpan
  | noSound
  | noReport (last : Json.Misfit)
  | undecoded (m : Json.Misfit)
deriving DecidableEq, Repr, Inhabited

/-- The wording of a fault. -/
def Fault.message : Fault → String
  | noSpan => "no JSON found in output"
  | noSound => "no valid JSON found in output"
  | noReport last => "no valid JSON found in output: " ++ last.message
  | undecoded m => "failed to unmarshal JSON output: " ++ m.message

/-- Whether a text is sound JSON. -/
def isSoundText (s : String) : Bool :=
  ((Json.ofText? s).map Json.isSound).getD false

/-- The first span of an output that is sound JSON. -/
def soundSpan (output : String) : Except Fault String :=
  match (Json.spans output).find? isSoundText with
  | some s => .ok s
  | none => .error .noSound

/-- The report that the first sound span of an output writes. -/
def ofSoundSpan {α : Type} (read : Json → Except Json.Fault α) (output : String) :
    Except Fault α := do
  let span ← soundSpan output
  match Json.decode read span with
  | .ok a => .ok a
  | .error m => .error (.undecoded m)

/-- The report that the first of some spans with its shape writes; `last` is the
misfit of the span before them. -/
def firstReport {α : Type} (read : Json → Except Json.Fault α) (last : Option Json.Misfit) :
    List String → Except Fault α
  | [] => .error (last.elim .noSpan .noReport)
  | s :: r =>
    match Json.decode read s with
    | .ok a => .ok a
    | .error m => firstReport read (some m) r

/-- The first report of an output. -/
def ofAnySpan {α : Type} (read : Json → Except Json.Fault α) (output : String) :
    Except Fault α :=
  firstReport read none (Json.spans output)

/-- The findings of one file: errors first, then warnings, then the rest. -/
def ofBuckets {α : Type} (path : String) (message : α → String)
    (errors warnings infos : List α) : List Finding :=
  let bucket (severity : Severity) (issues : List α) : List Finding :=
    issues.map fun issue => ⟨severity, path, message issue⟩
  bucket .error errors ++ bucket .warning warnings ++ bucket .info infos

end Finding
end ReleaseLint
