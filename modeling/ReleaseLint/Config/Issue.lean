/-
# What is wrong with a config

| rule | broken by |
| --- | --- |
| `empty-path` | a chart, preflight or manifest whose path is blank |
| `invalid-glob` | one whose path is a pattern that cannot be read |
| `invalid-version` | a version of a tool that is neither `latest` nor a version |

All issues are collected, charts first, then preflights, manifests and versions.
-/

import ReleaseLint.Config.Basic
import ReleaseLint.Glob.Pattern
import ReleaseLint.Text.Quoted

namespace ReleaseLint
namespace Config

/-- The lists of a config that hold paths. -/
inductive Section where
  | charts
  | preflights
  | manifests
deriving DecidableEq, Repr, Inhabited

/-- The name of a list. -/
def Section.name : Section → String
  | charts => "charts"
  | preflights => "preflights"
  | manifests => "manifests"

/-- A broken rule. -/
inductive Issue where
  | emptyPath (list : Section) (index : Nat)
  | invalidGlob (list : Section) (index : Nat) (pattern : String) (fault : Glob.Fault)
  | invalidVersion (tool version : String)
deriving DecidableEq, Repr, Inhabited

/-- The wording for a pattern that cannot be read. -/
def globMessage (pattern : String) (fault : Glob.Fault) : String :=
  s!"Invalid glob pattern {Text.quoted pattern}: {fault.message}"

namespace Issue

/-- The name of the broken rule. -/
def rule : Issue → String
  | emptyPath .. => "empty-path"
  | invalidGlob .. => "invalid-glob"
  | invalidVersion .. => "invalid-version"

/-- The wording of an issue. -/
def message : Issue → String
  | emptyPath .manifests index => s!"manifests[{index}]: pattern cannot be empty"
  | emptyPath list index => s!"{list.name}[{index}]: path is required"
  | invalidGlob list index pattern fault =>
    s!"{list.name}[{index}]: {globMessage pattern fault}"
  | invalidVersion tool version =>
    s!"invalid version {Text.quoted version} for tool {Text.quoted tool}: " ++
      "must be \"latest\" or a semantic version (e.g., 1.2.3)"

end Issue

/-- The issue of a path. -/
def pathIssue? (list : Section) (index : Nat) (path : String) : Option Issue :=
  if Text.allBlank path then some (.emptyPath list index)
  else if !Glob.isPattern path then none
  else
    match Glob.parse .search path with
    | .ok _ => none
    | .error fault => some (.invalidGlob list index path fault)

/-- The issues of a list of paths, the first of which has the number `index`. -/
def pathIssues (list : Section) : (index : Nat) → List String → List Issue
  | _, [] => []
  | index, path :: r => (pathIssue? list index path).toList ++ pathIssues list (index + 1) r

/-- The issues of the versions of tools. -/
def versionIssues (v : Versions) : List Issue :=
  (v.sorted.filter fun e => !Version.isSpec e.2).map fun e => .invalidVersion e.1 e.2

/-- Everything that is wrong with a config. -/
def issues (c : Config) : List Issue :=
  pathIssues .charts 0 (c.charts.map (·.path)) ++
    pathIssues .preflights 0 (c.preflights.map (·.path)) ++
    pathIssues .manifests 0 c.manifests ++
    (c.lint.map fun l => versionIssues l.tools).getD []

end Config
end ReleaseLint
