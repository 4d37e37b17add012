/-
# Finding resources

A configured path is explicit or a pattern.  An explicit path has to name a resource
of the kind asked for; of what a pattern matches, everything else is passed over.

| kind | is |
| --- | --- |
| chart | a directory with `Chart.yaml` or `Chart.yml` |
| preflight, support bundle | a file with the extension `yaml` or `yml` that declares the kind |
| manifest | any file |
-/

import ReleaseLint.Glob.Expand
import ReleaseLint.Resource.ClusterConfig
import ReleaseLint.Resource.Preflight

namespace ReleaseLint
namespace Resource

/-- The checker that filters what a pattern matches: none if the pattern names ignored
content on purpose. -/
def checkerFor (checker : Option Ignore.Checker) (pattern : String) : Option Ignore.Checker :=
  checker.filter fun c => !c.isBypassedBy pattern

/-- The files that a pattern stands for, where `configured` decides what is filtered. -/
def files (w : Workspace) (checker : Option Ignore.Checker) (configured pattern : String) :
    Except Error (List Path) :=
  Glob.expand w ⟨true, checkerFor checker configured⟩ pattern

/-- The first ones of several paths with the same segments. -/
def distinctPaths : (seen : List Path) → List Path → List Path
  | _, [] => []
  | seen, p :: r =>
    if seen.any p.same then distinctPaths seen r else p :: distinctPaths (p :: seen) r

/-- The paths that each of several patterns stands for, without repetitions. -/
def collect {α : Type} (find : α → Except Error (List Path)) (patterns : List α) :
    Except Error (List Path) := do
  return distinctPaths [] (← patterns.mapM find).flatten

/-- Whether a directory is a chart. -/
def isChart (w : Workspace) (directory : Path) : Bool :=
  Chart.markers.any fun marker => w.hasFile (directory / marker)

/-- The patterns for the marker files of the charts that a pattern matches. -/
def markerPatterns (pattern : Path) : List String :=
  if Chart.markers.any (Text.endsWith pattern.text) then [pattern.text]
  else
    let stem := Text.dropEnd (· == '/') pattern.text
    Chart.markers.map fun marker => stem ++ "/" ++ marker

/-- The chart at an explicit path. -/
def explicitChart (w : Workspace) (configured : String) : Except Error (List Path) :=
  let path := (Path.mk configured).clean
  if !w.has path then .error (.discovery configured .absent)
  else if !w.hasDirectory path then .error (.discovery configured .notADirectory)
  else if !isChart w path then .error (.discovery configured (.noChart path))
  else .ok [path]

/-- The charts that a configured path stands for. -/
def charts (w : Workspace) (checker : Option Ignore.Checker) (configured : String) :
    Except Error (List Path) :=
  if Text.allBlank configured then .error (.discovery configured .blankPattern)
  else if !Glob.isPattern configured then explicitChart w configured
  else do
    let patterns := markerPatterns (Path.mk configured).clean
    let found ← patterns.mapM (files w checker configured)
    return distinctPaths [] (found.flatten.filterMap Path.parent?)

/-- The patterns for the YAML files that a cleaned pattern matches. -/
def yamlPatterns (pattern : String) : Except Error (List String) :=
  let both (stem : String) : List String := [stem ++ "/*.yaml", stem ++ "/*.yml"]
  if Text.endsWith pattern ".yaml" || Text.endsWith pattern ".yml" then .ok [pattern]
  else if Text.endsWith pattern "/*" then
    .ok (both (String.ofList (pattern.toList.take (pattern.length - 2))))
  else if Text.endsWith pattern "**" || pattern.toList.contains '\x7b' then .ok (both pattern)
  else .error (.discovery pattern .openPattern)

/-- Whether a path has the extension of YAML files. -/
def hasYamlExtension (p : Path) : Bool :=
  p.extension? == some "yaml" || p.extension? == some "yml"

/-- Whether the file at a path declares a kind. -/
def declares (w : Workspace) (kind : Kind) (p : Path) : Except Error Bool :=
  match w.readText p with
  | .ok content => .ok (kind.isDeclaredBy content)
  | .error fault => .error (.system fault)

/-- The resource of a kind at an explicit path. -/
def explicitOfKind (w : Workspace) (kind : Kind) (configured : String) :
    Except Error (List Path) := do
  let path := (Path.mk configured).clean
  if !hasYamlExtension path then throw (.discovery configured .wrongExtension)
  if !w.has path then throw (.discovery configured .absent)
  if w.hasDirectory path then throw (.discovery configured .isADirectory)
  if !(← declares w kind path) then throw (.discovery configured (.otherKind kind))
  return [path]

/-- The resources of a kind that a configured path stands for.  Files that cannot be
read are passed over. -/
def ofKind (w : Workspace) (checker : Option Ignore.Checker) (kind : Kind) (configured : String) :
    Except Error (List Path) :=
  if Text.allBlank configured then .error (.discovery configured .blankPattern)
  else if !Glob.isPattern configured then explicitOfKind w kind configured
  else do
    let patterns ← yamlPatterns (Path.mk configured).clean.text
    let found ← collect (files w checker configured) patterns
    return found.filter fun p => ((declares w kind p).toOption).getD false

/-- The support bundle specs among the manifests. -/
def supportBundles (w : Workspace) (checker : Option Ignore.Checker) (manifests : List String) :
    Except Error (List Path) :=
  collect (ofKind w checker .supportBundle) manifests

/-- The files that the manifest patterns stand for. -/
def manifestFiles (w : Workspace) (checker : Option Ignore.Checker) (manifests : List String) :
    Except Error (List Path) :=
  collect (fun pattern => files w checker pattern pattern) manifests

/-- The embedded cluster configs among the manifests. -/
def clusterConfigs (w : Workspace) (checker : Option Ignore.Checker) (manifests : List String) :
    Except Error (List Path) := do
  let files ← manifestFiles w checker manifests
  return files.filter fun p => ((w.readText p).toOption).any ClusterConfig.isIn

/-- The directories that hold manifests. -/
def manifestDirectories (w : Workspace) (checker : Option Ignore.Checker)
    (manifests : List String) : Except Error (List Path) := do
  return distinctPaths [] ((← manifestFiles w checker manifests).filterMap Path.parent?)

/-- The version that the embedded cluster config at a path declares. -/
def clusterVersion (w : Workspace) (p : Path) : Except Error String :=
  match w.readText p with
  | .error .notFound => .error (.discovery p.text .noConfigFile)
  | .error fault => .error (.system fault)
  | .ok content =>
    match ClusterConfig.version content with
    | .ok version => .ok version
    | .error .notConfig => .error (.discovery p.text .notConfig)
    | .error .noVersion => .error (.discovery p.text .noVersion)

/-- Whether the spec at a path is a preflight of the templated version. -/
def isTemplatedPreflight (w : Workspace) (p : Path) : Except Error Bool :=
  match w.readText p with
  | .ok content => .ok (Preflight.isTemplated content)
  | .error fault => .error (.system fault)

/-- The chart in a directory. -/
def chartAt (w : Workspace) (directory : Path) : Except Error Chart :=
  match Chart.markers.findSome? fun m => (w.readText (directory / m)).toOption with
  | none => .error (.chart directory .unreadable)
  | some content =>
    match Chart.ofText directory content with
    | .ok c => .ok c
    | .error fault => .error (.chart directory fault)

/-- Store the manifests of files; files that are no texts are passed over. -/
def indexFiles (w : Workspace) : Manifest.Index → List Path → Except Error Manifest.Index
  | index, [] => .ok index
  | index, p :: r =>
    match w.readText p with
    | .error _ => indexFiles w index r
    | .ok content =>
      match index.extend (Manifest.ofText p content) with
      | .ok index => indexFiles w index r
      | .error c => .error (.clash c)

/-- The index of the HelmChart manifests among the manifests. -/
def manifestIndex (w : Workspace) (checker : Option Ignore.Checker) (manifests : List String) :
    Except Error Manifest.Index := do
  if manifests.isEmpty then throw .noManifests
  indexFiles w .empty (← manifestFiles w checker manifests)

/-- The manifests that belong to no chart, if every chart has a manifest. -/
def pair (charts : List Chart) (index : Manifest.Index) : Except Error (List Manifest.Orphan) :=
  match index.pair charts with
  | .ok orphans => .ok orphans
  | .error missing => .error (.missingManifests missing)

end Resource
end ReleaseLint
