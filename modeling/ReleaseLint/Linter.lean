/-
# Running linters

One call of a binary for each target.

| tool | arguments |
| --- | --- |
| `helm` | `lint`, the chart |
| `preflight` | `lint --format json`, values files behind `--values`, the spec |
| `support-bundle` | `lint --format json`, the spec |
| `embedded-cluster` | `lint --output json`, the config |
| `kots` | `lint --output json`, the directory |

The exit status says whether the target passed; the findings are read from what was
printed, on either stream, whatever the status is.
-/

import ReleaseLint.Finding.Output
import ReleaseLint.Resource.Discovery
import ReleaseLint.Session
import ReleaseLint.Text.Utf8

namespace ReleaseLint

/-- What a linter is run on. -/
inductive Target where
  | chart (directory : Path)
  | preflight (spec : Path) (values : Option Path) (chartKey : Option String)
  | supportBundle (spec : Path)
  | clusterConfig (file : Path)
  | manifests (directory : Path)
deriving DecidableEq, Repr, Inhabited

namespace Target

/-- The tool that lints a target. -/
def tool : Target → Tool
  | chart _ => .helm
  | preflight .. => .preflight
  | supportBundle _ => .supportBundle
  | clusterConfig _ => .embeddedCluster
  | manifests _ => .kots

/-- The path of a target. -/
def path : Target → Path
  | chart p | supportBundle p | clusterConfig p | manifests p => p
  | preflight spec _ _ => spec

end Target

/-- What a linter makes of a target: its exit status and its findings. -/
structure Outcome where
  success : Bool
  findings : List Finding
deriving DecidableEq, Repr, Inhabited

namespace Linter

/-- The values that the manifest of a chart has for builds, unless there are none. -/
def builderValues? (manifests : Manifest.Index) (chartKey : Option String) :
    Option (List (Yaml.Value × Yaml.Value)) := do
  let manifest ← manifests.get? (← chartKey)
  if manifest.builder.isEmpty then none else some manifest.builder

/-- The arguments for a target. -/
def arguments (manifests : Manifest.Index) : Target → List Argument
  | .chart p => [.text "lint", .text p.text]
  | .preflight spec values chartKey =>
    let valuesFile (file : Argument) : List Argument := [.text "--values", file]
    [.text "lint", .text "--format", .text "json"] ++
      (values.map fun p => valuesFile (.text p.text)).getD [] ++
      ((builderValues? manifests chartKey).map fun v => valuesFile (.values v)).getD [] ++
      [.text spec.text]
  | .supportBundle p => [.text "lint", .text "--format", .text "json", .text p.text]
  | .clusterConfig p | .manifests p =>
    [.text "lint", .text "--output", .text "json", .text p.text]

/-- Refuse a target that is not there. -/
def checkInput (target : Target) (w : Workspace) : Except Error Unit :=
  match w.node target.path with
  | .ok _ => .ok ()
  | .error .notFound => .error (.discovery target.path.text (.noInput target.tool))
  | .error fault => .error (.system fault)

/-- Refuse a templated preflight when there are no manifests to fill it in. -/
def checkTemplate (manifests : Manifest.Index) (target : Target) (w : Workspace) :
    Except Error Unit := do
  match target with
  | .preflight spec _ _ =>
    if (← Resource.isTemplatedPreflight w spec) && manifests.isEmpty then
      throw (.needsManifests spec)
  | _ => return ()

/-- The text of both streams of a program. -/
def printed (exit : Exit) : String :=
  Text.decode exit.stdout ++ Text.decode exit.stderr

/-- The outcome of a call whose output is no report. -/
def unreadable (tool : Tool) (success : Bool) (output : String) (fault : Finding.Fault) : Error :=
  let reason := fault.message ++ "\nOutput: " ++ output
  .output tool (if success then reason else "lint failed and output parsing failed: " ++ reason)

/-- The outcome of a call.  A failure of `helm` without findings is not about the
chart. -/
def outcome (tool : Tool) (success : Bool) (output : String) : Except Error Outcome :=
  match Finding.ofOutput tool output with
  | .error fault => .error (unreadable tool success output fault)
  | .ok findings =>
    if tool = .helm && !success && findings.isEmpty then
      .error (.execution tool ("helm lint failed\n" ++ output))
    else .ok ⟨success, findings⟩

/-- Run a linter on a target. -/
def run (binary : Path) (manifests : Manifest.Index) (target : Target) : Session Outcome := do
  Session.inspect (checkInput target)
  Session.inspect (checkTemplate manifests target)
  match ← Session.call binary (arguments manifests target) with
  | .error fault => throw (.execution target.tool (binary.text ++ ": " ++ fault.message))
  | .ok exit => Session.lift (outcome target.tool exit.success (printed exit))

end Linter
end ReleaseLint
