/-
# The linters

The five external tools, in the order in which they are run.

| tool | runs unless disabled | lints |
| --- | --- | --- |
| `helm` | yes | charts |
| `preflight` | yes | preflight specs |
| `support-bundle` | yes | support bundle specs |
| `embedded-cluster` | no | embedded cluster configs |
| `kots` | no | directories of manifests |
-/

import ReleaseLint.Text.Blank

namespace ReleaseLint

/-- An external linter. -/
inductive Tool where
  | helm
  | preflight
  | supportBundle
  | embeddedCluster
  | kots
deriving DecidableEq, Repr, Inhabited

namespace Tool

/-- Every tool, in the order in which they are run. -/
def all : List Tool :=
  [helm, preflight, supportBundle, embeddedCluster, kots]

/-- The name in config files, messages and cache paths. -/
def name : Tool → String
  | helm => "helm"
  | preflight => "preflight"
  | supportBundle => "support-bundle"
  | embeddedCluster => "embedded-cluster"
  | kots => "kots"

/-- The tool with a name. -/
def ofName? (s : String) : Option Tool :=
  all.find? (·.name == s)

/-- The key of a tool in version info documents and reports: its name with
underscores for hyphens. -/
def key (t : Tool) : String :=
  Text.replaceChar '-' '_' t.name

/-- The environment variable that names a local binary. -/
def overrideVariable : Tool → String
  | helm => "REPLICATED_HELM_PATH"
  | preflight => "REPLICATED_PREFLIGHT_PATH"
  | supportBundle => "REPLICATED_SUPPORT_BUNDLE_PATH"
  | embeddedCluster => "REPLICATED_EMBEDDED_CLUSTER_PATH"
  | kots => "REPLICATED_KOTS_PATH"

/-- Whether a tool runs when the config does not say. -/
def enabledByDefault : Tool → Bool
  | helm | preflight | supportBundle => true
  | embeddedCluster | kots => false

theorem mem_all (t : Tool) : t ∈ all := by
  cases t <;> decide

theorem ofName?_name (t : Tool) : ofName? t.name = some t := by
  cases t <;> rfl

end Tool
end ReleaseLint
