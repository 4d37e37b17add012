/-
# Charts and their manifests

Every chart needs a manifest with its key; those without one are refused together.
A manifest that belongs to no chart is only worth a warning.
-/

import ReleaseLint.Manifest.Index
import ReleaseLint.Text.Quoted

namespace ReleaseLint
namespace Manifest

/-- A manifest that belongs to no chart. -/
structure Orphan where
  key : String
  source : Path
deriving DecidableEq, Repr, Inhabited

/-- The wording of a warning. -/
def Orphan.message (o : Orphan) : String :=
  s!"HelmChart manifest at {Text.quoted o.source.text} ({o.key}) " ++
    "has no corresponding chart configured"

namespace Index

/-- The charts without a manifest. -/
def unmatched (index : Index) (charts : List Chart) : List Chart :=
  charts.filter fun c => !index.has c.key

/-- The manifests without a chart, in the order of their keys. -/
def orphans (index : Index) (charts : List Chart) : List Orphan :=
  (index.sorted.filter fun m => charts.all (·.key != m.key)).map fun m => ⟨m.key, m.source⟩

/-- The manifests without a chart, if every chart has a manifest; otherwise the
charts that have none. -/
def pair (index : Index) (charts : List Chart) : Except (List Chart) (List Orphan) :=
  match index.unmatched charts with
  | [] => .ok (index.orphans charts)
  | missing => .error missing

end Index
end Manifest
end ReleaseLint
