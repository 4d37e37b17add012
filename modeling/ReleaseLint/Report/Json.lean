/-
# Reports for programs

    report   := metadata, a member for each section, warnings unless there are none, summary
    section  := enabled, resources

| tool | member | resources |
| --- | --- | --- |
| `helm` | `helm_results` | `charts` |
| `preflight` | `preflight_results` | `specs` |
| `support-bundle` | `support_bundle_results` | `specs` |
| `embedded-cluster` | `embedded_cluster_results` | `configs` |
| `kots` | `kots_results` | `manifests` |

Sections come in the order of their members; of several for one tool, the last counts.
-/

import ReleaseLint.Json.Printer
import ReleaseLint.Report.Basic

namespace ReleaseLint
namespace Report

/-- A finding; an empty path is left out. -/
def findingJson (f : Finding) : Json :=
  .record ([("severity", .text f.severity.tag)] ++
    (if f.path = "" then [] else [("path", .text f.path)]) ++ [("message", .text f.message)])

/-- A tally. -/
def tallyJson (t : Tally) : Json :=
  .record [("error_count", .count t.errors), ("warning_count", .count t.warnings),
    ("info_count", .count t.infos)]

/-- A resource. -/
def Resource.toJson (r : Resource) : Json :=
  .record [("path", .text r.path), ("success", .bool r.success),
    ("messages", .array (r.findings.map findingJson)), ("summary", tallyJson r.tally)]

/-- The member that holds the resources of a tool. -/
def resourcesKey : Tool → String
  | .helm => "charts"
  | .preflight | .supportBundle => "specs"
  | .embeddedCluster => "configs"
  | .kots => "manifests"

/-- A section. -/
def Section.toJson (s : Section) : Json :=
  .record [("enabled", .bool s.enabled),
    (resourcesKey s.tool, .array (s.resources.map Resource.toJson))]

/-- The member of a section. -/
def sectionKey (t : Tool) : String :=
  t.key ++ "_results"

/-- The tools in the order of their members. -/
def sectionOrder : List Tool :=
  Tool.all.mergeSort fun a b => sectionKey a ≤ sectionKey b

/-- The members of the sections. -/
def sectionMembers (sections : List Section) : List (String × Json) :=
  sectionOrder.filterMap fun t =>
    ((sections.filter (·.tool == t)).getLast?).map fun s => (sectionKey t, s.toJson)

/-- What is said about the run itself. -/
def Metadata.toJson (m : Metadata) : Json :=
  .record ((m.configFile.map fun file => ("config_file", Json.text file)).toList ++
    [("cli_version", .text m.programVersion),
      ("tool_versions", .record (m.toolVersions.sorted.map fun v => (v.1, .text v.2)))])

/-- Totals. -/
def Summary.toJson (s : Summary) : Json :=
  .record [("total_resources", .count s.resources), ("passed_resources", .count s.passed),
    ("failed_resources", .count s.failed), ("total_errors", .count s.tally.errors),
    ("total_warnings", .count s.tally.warnings), ("total_info", .count s.tally.infos),
    ("overall_success", .bool s.success)]

/-- A report. -/
def toJson (r : Report) : Json :=
  .record ([("metadata", r.metadata.toJson)] ++ sectionMembers r.sections ++
    (if r.warnings.isEmpty then [] else [("warnings", .array (r.warnings.map .text))]) ++
    [("summary", r.summary.toJson)])

/-- The text of a report. -/
def jsonText (r : Report) : String :=
  r.toJson.pretty ++ "\n"

end Report
end ReleaseLint
