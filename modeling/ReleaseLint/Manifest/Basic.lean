/-
# HelmChart manifests

Documents of kind `HelmChart` that name the chart and the version they are for.
Documents without both are passed over, and a fault in a text hides what follows it.

| key | field |
| --- | --- |
| `spec.chart.name` | name |
| `spec.chart.chartVersion` | chart version |
| `spec.builder` | values for builds, if they are a mapping |
-/

import ReleaseLint.Chart
import ReleaseLint.Resource.Kind

namespace ReleaseLint

/-- One HelmChart manifest. -/
structure Manifest where
  name : String
  chartVersion : String
  builder : List (Yaml.Value × Yaml.Value)
  source : Path
deriving Repr, Inhabited

namespace Manifest

/-- What manifests and charts are paired by. -/
def key (m : Manifest) : String :=
  m.name ++ ":" ++ m.chartVersion

/-- The value that a list of keys leads to. -/
def at? (v : Yaml.Value) : List String → Option Yaml.Value
  | [] => some v
  | key :: r => (v.get? key).bind (at? · r)

/-- The text that a list of keys leads to, without blanks at its ends and not empty. -/
def textAt? (v : Yaml.Value) (keys : List String) : Option String :=
  (((at? v keys).bind (·.scalarText?)).map Text.trim).filter (· != "")

/-- The manifest that a document of the file `source` is. -/
def ofDocument? (source : Path) (document : Yaml.Value) : Option Manifest :=
  if !Resource.Kind.helmChart.isKindOf document then none
  else do
    let name ← textAt? document ["spec", "chart", "name"]
    let chartVersion ← textAt? document ["spec", "chart", "chartVersion"]
    let builder := ((at? document ["spec", "builder"]).bind (·.mapping?)).getD []
    return { name, chartVersion, builder, source }

/-- The manifests in the content of the file `source`. -/
def ofText (source : Path) (content : String) : List Manifest :=
  (Yaml.Values.ofText content).values.filterMap (ofDocument? source)

end Manifest
end ReleaseLint
