/-
# Reports for people

Warnings first, then the sections in order, each resource with its findings, its
tally and its status.  Totals follow when there are several resources.
-/

import ReleaseLint.Report.Basic
import ReleaseLint.Report.Style

namespace ReleaseLint
namespace Report
namespace Human

/-- The word for a status. -/
def status (color passed : Bool) : String :=
  let style := if !color then Style.plain else if passed then .green else .red
  style.apply (if passed then "Passed" else "Failed")

/-- The line of a finding. -/
def findingLine (f : Finding) : String :=
  if f.path = "" then s!"[{f.severity.tag}] {f.message}"
  else s!"[{f.severity.tag}] {f.path}: {f.message}"

/-- The lines of a resource. -/
def resourceLines (color : Bool) (label : String) (r : Resource) : List String :=
  let t := r.tally
  [s!"==> Linting {label}: {r.path}", ""] ++
    (if r.findings.isEmpty then ["No issues found"] else r.findings.map findingLine) ++
    ["",
      s!"Summary for {r.path}: {t.errors} error(s), {t.warnings} warning(s), {t.infos} info",
      s!"Status: {status color r.success}", ""]

/-- The lines of a section. -/
def sectionLines (color : Bool) (s : Section) : List String :=
  let name := s.tool.displayName
  let label := s.tool.resourceLabel
  if !s.enabled then [s!"{name} linting is disabled in .replicated config", ""]
  else if s.resources.isEmpty then
    [s!"No {label}s configured (skipping {name} linting)", ""]
  else s.resources.flatMap (resourceLines color label)

/-- The lines of a section among the totals. -/
def totalLines (s : Section) : List String :=
  let label := s.tool.resourceLabel
  if s.resources.isEmpty then []
  else
    [s!"{label}s linted: {s.resources.length}", s!"{label}s passed: {s.passed}",
      s!"{label}s failed: {s.failed}"]

/-- The lines of the totals. -/
def summaryLines (color : Bool) (r : Report) : List String :=
  let summary := r.summary
  if summary.resources ≤ 1 then []
  else
    ["==> Overall Summary"] ++ r.sections.flatMap totalLines ++
      [s!"Total errors: {summary.tally.errors}", s!"Total warnings: {summary.tally.warnings}",
        s!"Total info: {summary.tally.infos}", "",
        s!"Overall Status: {status color summary.success}"]

/-- The lines of the warnings. -/
def warningLines (warnings : List String) : List String :=
  if warnings.isEmpty then [] else warnings.map ("Warning: " ++ ·) ++ [""]

/-- The lines of a report. -/
def lines (color : Bool) (r : Report) : List String :=
  warningLines r.warnings ++ r.sections.flatMap (sectionLines color) ++ summaryLines color r

/-- The text of a report. -/
def text (color : Bool) (r : Report) : String :=
  String.join ((lines color r).map (· ++ "\n"))

end Human
end Report
end ReleaseLint
