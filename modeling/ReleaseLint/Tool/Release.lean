/-
# Where releases are published

| tool | archive | checksum |
| --- | --- | --- |
| `helm` | `helm-vV-OS-ARCH.tar.gz`, zip on Windows | a sidecar `….sha256sum` |
| `preflight`, `support-bundle` | `vV/T_OS_ARCH.tar.gz`, `vV/T_darwin_all.tar.gz` on macOS, zip on Windows | the manifest `vV/troubleshoot_V_checksums.txt` |

The other two tools are not published.
-/

import ReleaseLint.Archive.Format
import ReleaseLint.Error

namespace ReleaseLint
namespace Tool

/-- The URLs below which the two families of tools are published. -/
structure Sites where
  helm : String
  troubleshoot : String
deriving DecidableEq, Repr, Inhabited

namespace Sites

/-- The public sites. -/
def standard : Sites where
  helm := "https://get.helm.sh"
  troubleshoot := "https://github.com/replicatedhq/troubleshoot/releases/download"

/-- A URL without slashes at its end. -/
def stem (url : String) : String :=
  Text.dropEnd (· == '/') url

/-- Both families at one URL. -/
def single (url : String) : Sites := ⟨stem url, stem url⟩

end Sites

/-- How a checksum is published. -/
inductive Published where
  | sidecar (url : String)
  | manifest (url : String)
deriving DecidableEq, Repr, Inhabited

/-- The URL of a checksum. -/
def Published.url : Published → String
  | sidecar url | manifest url => url

/-- A release: its archive, the checksum of that, and the end of the path of the
binary in it. -/
structure Release where
  archiveName : String
  archiveUrl : String
  format : Archive.Format
  checksum : Published
  entry : String
deriving DecidableEq, Repr, Inhabited

namespace Release

/-- A release of `helm`. -/
def ofHelm (version : String) (p : Platform) (site : String) : Release :=
  let name := s!"helm-v{version}-{p.text}." ++ (if p.isWindows then "zip" else "tar.gz")
  let url := site ++ "/" ++ name
  { archiveName := name
    archiveUrl := url
    format := if p.isWindows then .zip else .tarGz
    checksum := .sidecar (url ++ ".sha256sum")
    entry := p.text ++ "/" ++ Tool.helm.binaryName p }

/-- A release of a troubleshoot tool. -/
def ofTroubleshoot (t : Tool) (version : String) (p : Platform) (site : String) : Release :=
  let name :=
    if p.isDarwin then t.name ++ "_darwin_all.tar.gz"
    else s!"{t.name}_{p.os}_{p.arch}." ++ (if p.isWindows then "zip" else "tar.gz")
  let url := s!"{site}/v{version}/"
  { archiveName := name
    archiveUrl := url ++ name
    format := if p.isWindows then .zip else .tarGz
    checksum := .manifest s!"{url}troubleshoot_{version}_checksums.txt"
    entry := t.binaryName p }

/-- The release of a version of a tool; letters `v` in front of the version do not
count. -/
def find (t : Tool) (version : String) (p : Platform) (sites : Sites) : Except Error Release :=
  let version := Text.dropLeadingV version
  match t with
  | .helm => .ok (ofHelm version p (Sites.stem sites.helm))
  | .preflight | .supportBundle => .ok (ofTroubleshoot t version p (Sites.stem sites.troubleshoot))
  | .embeddedCluster | .kots => .error (.unsupportedTool t)

/-- The binary in the archive of a release. -/
def unpack (r : Release) (data : ByteArray) : Except Error ByteArray :=
  match r.format.extract data r.entry with
  | .ok binary => .ok binary
  | .error .notFound => .error (.entryMissing r.entry)
  | .error (.fault f) => .error (.archive f)

end Release
end Tool
end ReleaseLint
