/-
# Errors

Everything that can keep a project from being linted, by cause.  The wording of each
one stands in `Error.message`.
-/

import ReleaseLint.Archive.Entry
import ReleaseLint.Config.Issue
import ReleaseLint.Json.Decode
import ReleaseLint.Manifest.Pairing
import ReleaseLint.Tool.Platform
import ReleaseLint.Tree
import ReleaseLint.Url

namespace ReleaseLint

/-- Why a path or a pattern names no resource. -/
inductive Resource.Refusal where
  | blankPattern
  | openPattern
  | absent
  | notADirectory
  | isADirectory
  | noChart (directory : Path)
  | wrongExtension
  | otherKind (kind : Resource.Kind)
  | noInput (tool : Tool)
  | noConfigFile
  | notConfig
  | noVersion
deriving DecidableEq, Repr, Inhabited

/-- The wording of a refusal. -/
def Resource.Refusal.message : Resource.Refusal → String
  | blankPattern => "pattern cannot be empty"
  | openPattern => "pattern must end with .yaml, .yml, *, or **"
  | absent => "path does not exist"
  | notADirectory => "path is not a directory"
  | isADirectory => "path is a directory, expected a file"
  | noChart directory =>
    s!"directory {directory.text} is not a valid Helm chart (no Chart.yaml or Chart.yml found)"
  | wrongExtension => "file must have .yaml or .yml extension"
  | otherKind kind =>
    s!"file does not contain kind: {kind.name} (not a valid {kind.description})"
  | noInput tool => s!"{tool.name} input path does not exist"
  | noConfigFile => "embedded cluster config does not exist"
  | notConfig => "file does not appear to be an embedded cluster config"
  | noVersion => "embedded cluster config missing spec.version field"

/-- Why a download fails. -/
inductive Tool.DownloadFault where
  | addressTooLong
  | unreachable
  | status (line : String)
  | notVersions (m : Json.Misfit)
deriving DecidableEq, Repr, Inhabited

/-- The wording of a failed download from a URL. -/
def Tool.DownloadFault.message (url : String) : Tool.DownloadFault → String
  | addressTooLong =>
    s!"Download failed for {url}: builder error for url ({(Url.ofText url).text})"
  | unreachable =>
    s!"Download failed for {url}: error sending request for url ({(Url.ofText url).text})"
  | status line => s!"Download failed for {url}: HTTP {line}"
  | notVersions m => s!"Download failed for {url}: invalid version info: {m.message}"

/-- Why no recommended version is known. -/
inductive Tool.LookupFault where
  | download (url : String) (fault : Tool.DownloadFault)
  | unpublished
deriving DecidableEq, Repr, Inhabited

/-- The wording of a failed lookup. -/
def Tool.LookupFault.message : Tool.LookupFault → String
  | download url fault => fault.message url
  | unpublished => "no recommended version published"

/-- Why a project is not linted, or a resource is not. -/
inductive Error where
  | config (path : Path) (fault : Yaml.Fault)
  | invalidConfig (issues : List Config.Issue)
  | noManifests
  | needsManifests (spec : Path)
  | glob (pattern : String) (fault : Glob.Fault)
  | traversal (pattern : String)
  | discovery (pattern : String) (refusal : Resource.Refusal)
  | download (url : String) (fault : Tool.DownloadFault)
  | checksumMismatch (file expected actual : String)
  | checksumMissing (file url : String)
  | entryMissing (entry : String)
  | archive (fault : Archive.Fault)
  | unsupportedTool (tool : Tool)
  | unsupportedPlatform (platform : Platform)
  | lookup (tool : Tool) (fault : Tool.LookupFault)
  | missingManifests (charts : List Chart)
  | clash (c : Manifest.Clash)
  | chart (path : Path) (fault : Chart.Fault)
  | output (tool : Tool) (explanation : String)
  | execution (tool : Tool) (explanation : String)
  | system (fault : SystemFault)
  | ignoreFile (path : Path)
  | cacheDirectory (path : Path)
  | cacheFile (path : Path)
deriving Repr, Inhabited

namespace Error

/-- The line about a chart among several. -/
def chartLine (c : Chart) : String :=
  s!"  - {c.path.text} ({c.name}:{c.version})"

/-- The wording for charts without a manifest. -/
def missingMessage (charts : List Chart) : String :=
  let head :=
    match charts with
    | [c] =>
      [s!"Missing HelmChart manifest for chart at {Text.quoted c.path.text} " ++
        s!"({c.name}:{c.version})"]
    | charts =>
      s!"Chart validation failed - {charts.length} charts missing HelmChart manifests:" ::
        charts.map chartLine
  "\n".intercalate (head ++
    ["",
      "Each Helm chart requires a corresponding HelmChart manifest (kind: HelmChart).",
      "Ensure the manifests are in paths specified in the 'manifests' section of " ++
        ".replicated config."])

/-- The wording of an error. -/
def message : Error → String
  | config path fault => s!"Failed to parse config at {path.text}: {fault.message}"
  | invalidConfig issues =>
    "Invalid configuration: " ++ "; ".intercalate (issues.map (·.message))
  | noManifests =>
    "Invalid configuration: no manifests configured - cannot discover HelmChart resources"
  | needsManifests spec =>
    s!"Invalid configuration: v1beta3 preflight spec {spec.text} requires HelmChart manifests" ++
      "\nCheck that your manifests paths include the HelmChart definition"
  | glob pattern fault => Config.globMessage pattern fault
  | traversal pattern =>
    s!"Pattern {Text.quoted pattern} must not traverse outside the project directory"
  | discovery pattern refusal =>
    s!"Discovery failed for {Text.quoted pattern}: {refusal.message}"
  | download url fault => fault.message url
  | checksumMismatch file expected actual =>
    s!"checksum mismatch for {file}: got {actual}, want {expected}"
  | checksumMissing file url => s!"checksum for {file} not found in {url}"
  | entryMissing entry => s!"file {Text.quoted entry} not found in archive"
  | archive fault => s!"Failed to read archive: {fault.message}"
  | unsupportedTool tool =>
    s!"Unsupported tool: {tool.name} (no download available; " ++
      s!"set {tool.overrideVariable} to a local binary)"
  | unsupportedPlatform platform => s!"Unsupported platform: {platform.os}/{platform.arch}"
  | lookup tool fault =>
    s!"Failed to determine latest version of {tool.name}: {fault.message}"
  | missingManifests charts => missingMessage charts
  | clash c =>
    s!"duplicate HelmChart manifest found for chart {Text.quoted c.key}\n" ++
      s!"  First:  {c.first.text}\n  Second: {c.second.text}\n" ++
      "Each chart name:version pair must be unique"
  | chart path fault => s!"Failed to read chart metadata at {path.text}: {fault.message}"
  | output tool explanation => s!"Failed to parse {tool.name} output: {explanation}"
  | execution tool explanation => s!"Failed to execute {tool.name}: {explanation}"
  | system fault => s!"IO error: {fault.message}"
  | ignoreFile path => s!"Failed to load ignore rules from {path.text}"
  | cacheDirectory path => s!"Failed to create cache directory {Text.quoted path.text}"
  | cacheFile path => s!"Failed to move binary into {Text.quoted path.text}"

end Error
end ReleaseLint
