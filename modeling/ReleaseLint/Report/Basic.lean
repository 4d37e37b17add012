/-
# Reports

One section for each linter, with one resource for each target.  A resource fails
when its linter does, or, under strict linting, when there are warnings.  A resource
that could not be linted fails with the error as its only finding.
-/

import ReleaseLint.Config.Basic
import ReleaseLint.Linter

namespace ReleaseLint
namespace Report

/-- What came out for one resource. -/
structure Resource where
  path : String
  success : Bool
  findings : List Finding
  tally : Tally
deriving DecidableEq, Repr, Inhabited

namespace Resource

/-- The report on a resource that was linted. -/
def ofOutcome (path : String) (outcome : Outcome) (strict : Bool) : Resource :=
  let tally := Tally.ofFindings outcome.findings
  ⟨path, outcome.success && !(strict && 0 < tally.warnings), outcome.findings, tally⟩

/-- The report on a resource that could not be linted. -/
def ofError (path : String) (e : Error) : Resource :=
  let findings := [Finding.mk .error "" e.message]
  ⟨path, false, findings, Tally.ofFindings findings⟩

end Resource

/-- The resources of one linter. -/
structure Section where
  tool : Tool
  enabled : Bool
  resources : List Resource
deriving DecidableEq, Repr, Inhabited

namespace Section

/-- The number of resources that passed. -/
def passed (s : Section) : Nat :=
  s.resources.countP (·.success)

/-- The number of resources that failed. -/
def failed (s : Section) : Nat :=
  s.resources.length - s.passed

end Section

/-- What a report says about the run itself. -/
structure Metadata where
  configFile : Option String
  programVersion : String
  toolVersions : Config.Versions
deriving DecidableEq, Repr, Inhabited

/-- Totals over all sections. -/
structure Summary where
  resources : Nat
  passed : Nat
  failed : Nat
  tally : Tally
  success : Bool
deriving DecidableEq, Repr, Inhabited

end Report

/-- Everything that came out of one run. -/
structure Report where
  metadata : Report.Metadata
  sections : List Report.Section
  warnings : List String
deriving DecidableEq, Repr, Inhabited

namespace Report

/-- The resources of all sections. -/
def resources (r : Report) : List Resource :=
  r.sections.flatMap (·.resources)

/-- The totals of a report. -/
def summary (r : Report) : Summary :=
  let passed := r.resources.countP (·.success)
  let failed := r.resources.countP (!·.success)
  { resources := r.resources.length
    passed
    failed
    tally := r.resources.foldl (fun t x => t + x.tally) .zero
    success := failed == 0 }

/-- Whether every resource passed. -/
def isSuccess (r : Report) : Bool :=
  r.summary.success

/-- The first section of a tool. -/
def section? (r : Report) (t : Tool) : Option Section :=
  r.sections.find? (·.tool == t)

end Report

namespace Tool

/-- The name of a linter in texts. -/
def displayName : Tool → String
  | helm => "Helm"
  | preflight => "Preflight"
  | supportBundle => "Support bundle"
  | embeddedCluster => "Embedded cluster"
  | kots => "KOTS"

/-- The word for one thing that a linter lints. -/
def resourceLabel : Tool → String
  | helm => "chart"
  | preflight => "preflight spec"
  | supportBundle => "support bundle spec"
  | embeddedCluster => "embedded cluster config"
  | kots => "KOTS manifest"

end Tool
end ReleaseLint
