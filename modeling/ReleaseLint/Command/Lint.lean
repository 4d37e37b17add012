/-
# Linting a project

    config  →  charts and manifests  →  a section for each linter  →  report

Before any linter runs, the charts are paired with their manifests.  The binary of a
linter is looked for once, when there is something to lint; if there is none, every
target fails with the reason.

| exit code | |
| --- | --- |
| 0 | every resource passed |
| 1 | a resource failed, or the project cannot be linted |
| 2 | a config file cannot be read as a config |
-/

import ReleaseLint.Command.Console
import ReleaseLint.Config.Load
import ReleaseLint.Report.Human
import ReleaseLint.Report.Json
import ReleaseLint.Tool.Resolver

namespace ReleaseLint
namespace Command

/-- The version of this program. -/
def programVersion : String := "0.1.0"

/-- How a report is written. -/
inductive Format where
  | human
  | json
deriving DecidableEq, Repr, Inhabited

/-- What is asked of the command. -/
structure Options where
  project : Path
  config : Option Path
  format : Format
  strict : Bool
deriving DecidableEq, Repr, Inhabited

/-- A path as reports show it: as seen from the project, if it lies in it. -/
def displayPath (project p : Path) : String :=
  match p.after? project with
  | some "" => "."
  | some rest => "./" ++ rest
  | none => p.text

/-- What a run works with: the config, what is ignored, the charts and the manifests. -/
structure Project where
  options : Options
  config : Config
  checker : Option Ignore.Checker
  charts : List Path
  manifests : Manifest.Index

namespace Project

/-- The lint settings of a project. -/
def settings (p : Project) : Config.Lint :=
  p.config.lintSettings

/-- Whether a tool runs. -/
def runs (p : Project) (t : Tool) : Bool :=
  (p.settings.switches t).isEnabled t

/-- Whether the warnings of a tool are failures. -/
def isStrict (p : Project) (t : Tool) : Bool :=
  p.options.strict || (p.settings.switches t).isStrict

/-- The key of the chart that holds a values file, if one does. -/
def chartKey (w : Workspace) (values : Option Path) : Except Error (Option String) :=
  match values.bind Path.parent? with
  | none => .ok none
  | some directory =>
    if Resource.isChart w directory then (Resource.chartAt w directory).map (some ·.key)
    else .ok none

/-- The targets of a configured preflight. -/
def preflightTargets (p : Project) (w : Workspace) (e : Config.PreflightEntry) :
    Except Error (List Target) := do
  let values := e.valuesPath.map Path.mk
  let key ← chartKey w values
  let specs ← Resource.ofKind w p.checker .preflight e.path
  return specs.map fun spec => .preflight spec values key

/-- The targets of a tool. -/
def targets (p : Project) (t : Tool) (w : Workspace) : Except Error (List Target) := do
  let manifests := p.config.manifests
  match t with
  | .helm => return p.charts.map .chart
  | .preflight => return (← p.config.preflights.mapM (p.preflightTargets w)).flatten
  | .supportBundle => return (← Resource.supportBundles w p.checker manifests).map .supportBundle
  | .embeddedCluster => return (← Resource.clusterConfigs w p.checker manifests).map .clusterConfig
  | .kots => return (← Resource.manifestDirectories w p.checker manifests).map .manifests

/-- The version of a tool that is asked for.  An embedded cluster config says itself
which version is the latest. -/
def versionSpec (p : Project) (t : Tool) (targets : List Target) (w : Workspace) :
    Except Error String :=
  let spec := p.settings.versionOf t
  if t != .embeddedCluster || spec != Version.latest then .ok spec
  else
    match targets with
    | target :: _ => Resource.clusterVersion w target.path
    | [] => .ok spec

/-- What a search for a binary came to: its path, the version that is reported, and
warnings. -/
structure Found where
  binary : Except Error Path
  version : Option String
  warnings : List String

/-- The warning about a version that is outdated. -/
def outdated (t : Tool) (version recommended : String) : String :=
  s!"{t.name} {version} is outdated; {recommended} is recommended. " ++
    "Update the version in .replicated"

/-- The warnings about a version that has to be downloaded. -/
def versionWarnings (r : Tool.Resolver) (t : Tool) (version : String) : Session (List String) := do
  match ← Session.attempt (r.latest t) with
  | .ok recommended =>
    return if Version.isOutdated version recommended then [outdated t version recommended] else []
  | .error _ => return []

/-- Look for the binary of a tool. -/
def find (r : Tool.Resolver) (t : Tool) (spec : String) : Session Found := do
  if (r.overrides t).isSome then
    return ⟨← Session.attempt (r.locate t spec), some "local", []⟩
  else
    match ← Session.attempt (r.version t spec) with
    | .error e => return ⟨.error e, none, []⟩
    | .ok version =>
      let cached := Tool.Cache.isCached (← Session.workspace) r.cacheRoot t version r.platform
      let warnings ←
        if spec != Version.latest && !cached then versionWarnings r t version else pure []
      return ⟨← Session.attempt (r.resolve t version), some version, warnings⟩

/-- Lint a target. -/
def lintTarget (p : Project) (binary : Path) (target : Target) : Session Report.Resource := do
  let path := displayPath p.options.project target.path
  match ← Session.attempt (Linter.run binary p.manifests target) with
  | .ok outcome => return .ofOutcome path outcome (p.isStrict target.tool)
  | .error e => return .ofError path e

/-- Lint all targets of a tool, at least one. -/
def lintTargets (p : Project) (r : Tool.Resolver) (t : Tool) (targets : List Target) :
    Session (Found × List Report.Resource) := do
  let found ←
    match p.versionSpec t targets (← Session.workspace) with
    | .ok spec => find r t spec
    | .error e => pure ⟨.error e, none, []⟩
  match found.binary with
  | .ok binary => return (found, ← targets.mapM (p.lintTarget binary))
  | .error e =>
    let failed (target : Target) : Report.Resource :=
      .ofError (displayPath p.options.project target.path) e
    return (found, targets.map failed)

/-- Add the section of a tool to a report. -/
def addSection (p : Project) (r : Tool.Resolver) (report : Report) (t : Tool) : Session Report := do
  let add (report : Report) (resources : List Report.Resource) : Report :=
    { report with sections := report.sections ++ [⟨t, p.runs t, resources⟩] }
  if !p.runs t then return add report []
  let targets ← Session.inspect (p.targets t)
  if targets.isEmpty then return add report []
  let (found, resources) ← p.lintTargets r t targets
  let versions := report.metadata.toolVersions
  let metadata : Report.Metadata :=
    { report.metadata with
      toolVersions := (found.version.map fun v => Config.Versions.put versions t.name v).getD
        versions }
  return add { report with metadata, warnings := report.warnings ++ found.warnings } resources

/-- The charts of a config, in order and without repetitions. -/
def chartsOf (w : Workspace) (checker : Option Ignore.Checker) (c : Config) :
    Except Error (List Path) :=
  Resource.collect (Resource.charts w checker) (c.charts.map (·.path))

/-- Gather what a run works with. -/
def gather (o : Options) (c : Config) (w : Workspace) : Except Error Project := do
  let checker ← (Ignore.Checker.load w o.project).mapError Error.ignoreFile
  let runs (t : Tool) : Bool := (c.lintSettings.switches t).isEnabled t
  let charts ← if runs .helm then chartsOf w checker c else pure []
  let manifests ←
    if !c.manifests.isEmpty && (runs .helm || runs .preflight) then
      Resource.manifestIndex w checker c.manifests
    else pure .empty
  return ⟨o, c, checker, charts, manifests⟩

/-- The warnings about manifests without a chart, when both are configured and every
chart has a manifest. -/
def pairingWarnings (p : Project) (w : Workspace) : Except Error (List String) := do
  if p.charts.isEmpty || p.config.manifests.isEmpty then return []
  let charts ← p.charts.mapM (Resource.chartAt w)
  return (← Resource.pair charts p.manifests).map (·.message)

end Project

/-- The config that the command is to use. -/
def loadConfig (o : Options) (w : Workspace) : Except Error Config :=
  Config.resolve w (o.config.getD o.project)

/-- The config file that reports name. -/
def configFile (o : Options) (w : Workspace) : Option Path :=
  o.config.or (Config.filesAbove w o.project).getLast?

/-- Lint a project. -/
def report (o : Options) (r : Tool.Resolver) : Session Report := do
  let c ← Session.inspect (loadConfig o)
  let file := configFile o (← Session.workspace)
  let metadata : Report.Metadata := ⟨file.map (·.text), programVersion, []⟩
  if !c.lintSettings.isEnabled then
    return ⟨metadata, Tool.all.map fun t => ⟨t, false, []⟩, []⟩
  let p ← Session.inspect (Project.gather o c)
  let warnings ← Session.inspect p.pairingWarnings
  Tool.all.foldlM (p.addSection r) ⟨metadata, [], warnings⟩

/-- The status line of a section. -/
def statusLine (report : Report) (s : Report.Section) : String :=
  if !s.enabled then s.tool.name ++ ": disabled"
  else if s.resources.isEmpty then s.tool.name ++ ": nothing to lint"
  else
    let version := (report.metadata.toolVersions.get? s.tool.name).getD "unresolved"
    s!"{s.tool.name} {version}: {s.resources.length} linted, {s.failed} failed"

/-- The text of a report. -/
def render (format : Format) (color : Bool) (report : Report) : String :=
  match format with
  | .human => Report.Human.text color report
  | .json => report.jsonText

/-- What is said about a report. -/
def events (format : Format) (mode : Mode) (color : Bool) (report : Report) : List Event :=
  (if mode = .verbose then report.sections.map fun s => .message (statusLine report s) else []) ++
    (if format = .json then report.warnings.map .warning else []) ++
    [.output (render format color report),
      if report.isSuccess then .success "linting passed" else .error "linting failed"]

/-- Run the command: what it says, and its exit code. -/
def lint (o : Options) (r : Tool.Resolver) (mode : Mode) (color : Bool) :
    Session (List Event × Nat) := do
  match ← Session.attempt (report o r) with
  | .ok report =>
    return (events o.format mode color report, if report.isSuccess then 0 else 1)
  | .error (.config path fault) =>
    return ([.error s!"Parse error in {path.text}: {fault.message}"], 2)
  | .error e => throw e

end Command
end ReleaseLint
