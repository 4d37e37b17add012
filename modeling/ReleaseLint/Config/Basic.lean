/-
# Project configs

What a project is made of and how it is linted.  Every setting may be left open, so
that one config can be laid over another: an open setting is an empty text, an empty
list or `none`.

| linter | runs if the config leaves it open | strict if left open |
| --- | --- | --- |
| `helm`, `preflight`, `support-bundle` | yes | no |
| `embedded-cluster`, `kots` | no | no |
-/

import ReleaseLint.Tool.Basic
import ReleaseLint.Version.Spec

namespace ReleaseLint
namespace Config

/-- A chart of a project; the path may be a pattern. -/
structure ChartEntry where
  path : String
  chartVersion : Option String
  appVersion : Option String
deriving DecidableEq, Repr, Inhabited

/-- A preflight spec of a project; the path may be a pattern. -/
structure PreflightEntry where
  path : String
  valuesPath : Option String
deriving DecidableEq, Repr, Inhabited

/-- Whether a linter runs, and whether its warnings are failures. -/
structure Switches where
  disabled : Option Bool
  strict : Option Bool
deriving DecidableEq, Repr, Inhabited

namespace Switches

/-- Everything is left open. -/
def unset : Switches := ⟨none, none⟩

/-- Whether a tool runs. -/
def isEnabled (s : Switches) (t : Tool) : Bool :=
  !s.disabled.getD (!t.enabledByDefault)

/-- Whether warnings are failures. -/
def isStrict (s : Switches) : Bool :=
  s.strict.getD false

end Switches

/-- The versions asked for, by the names of tools. -/
abbrev Versions := List (String × String)

namespace Versions

/-- The version asked for under a name. -/
def get? (v : Versions) (name : String) : Option String :=
  (v.find? (·.1 == name)).map (·.2)

/-- Ask for a version under a name. -/
def put (v : Versions) (name version : String) : Versions :=
  if v.any (·.1 == name) then v.map fun e => if e.1 == name then (name, version) else e
  else v ++ [(name, version)]

/-- Ask for each of the versions in `above`. -/
def putAll (v above : Versions) : Versions :=
  above.foldl (fun v e => v.put e.1 e.2) v

/-- The versions in the order of their names. -/
def sorted (v : Versions) : Versions :=
  v.mergeSort fun a b => a.1 ≤ b.1

end Versions

/-- How a project is linted. -/
structure Lint where
  version : Option Nat
  enabled : Option Bool
  switches : Tool → Switches
  tools : Versions
deriving Inhabited

namespace Lint

/-- Everything is left open. -/
def unset : Lint := ⟨none, none, fun _ => .unset, []⟩

/-- Whether a project is linted at all. -/
def isEnabled (l : Lint) : Bool :=
  l.enabled.getD true

/-- The version of a tool that is asked for. -/
def versionOf (l : Lint) (t : Tool) : String :=
  (l.tools.get? t.name).getD Version.latest

end Lint
end Config

/-- The config of a project. -/
structure Config where
  appId : String
  appSlug : String
  channelIds : List String
  channelNames : List String
  charts : List Config.ChartEntry
  preflights : List Config.PreflightEntry
  releaseLabel : String
  manifests : List String
  lint : Option Config.Lint
deriving Inhabited

namespace Config

/-- Everything is left open. -/
def unset : Config := ⟨"", "", [], [], [], [], "", [], none⟩

/-- How the project is linted. -/
def lintSettings (c : Config) : Lint :=
  c.lint.getD .unset

end Config
end ReleaseLint
