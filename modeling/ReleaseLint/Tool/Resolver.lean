/-
# From a tool and a version to a binary

    latest, or nothing  →  the recommended version, looked up once
    a cached binary     →  its path, without a request
    any other           →  the release is downloaded, verified, unpacked and stored

Nothing is stored before the archive has the published digest and holds the binary.
A local binary may take the place of all this.
-/

import ReleaseLint.Tool.Cache
import ReleaseLint.Tool.Checksum
import ReleaseLint.Tool.Download
import ReleaseLint.Tool.Release
import ReleaseLint.Version.Spec

namespace ReleaseLint
namespace Tool

/-- Where binaries come from. -/
structure Resolver where
  cacheRoot : Path
  overrides : Tool → Option Path
  versionsUrl : String
  sites : Sites
  platform : Platform

namespace Resolver

/-- The public source of recommended versions. -/
def standardVersionsUrl : String := "https://replicated.app/ping"

/-- Look up the recommended versions. -/
def lookUp (r : Resolver) (t : Tool) : Session Recommended := do
  let failed (fault : DownloadFault) : Error := .lookup t (.download r.versionsUrl fault)
  match ← Session.attempt (fetchText r.versionsUrl) with
  | .error (.download _ fault) => throw (failed fault)
  | .error e => throw e
  | .ok text =>
    match Recommended.ofText text with
    | .error m => throw (failed (.notVersions m))
    | .ok versions => return versions

/-- The recommended versions, looked up unless they are known. -/
def recommended (r : Resolver) (t : Tool) : Session Recommended := do
  match (← get).recommended with
  | some versions => return versions
  | none =>
    let versions ← r.lookUp t
    modify fun m => { m with recommended := some versions }
    return versions

/-- The recommended version of a tool. -/
def latest (r : Resolver) (t : Tool) : Session String := do
  match (← r.recommended t).version? t with
  | some version => return version
  | none => throw (.lookup t .unpublished)

/-- The version that a specification asks for, without letters `v` in front. -/
def version (r : Resolver) (t : Tool) (spec : String) : Session String := do
  let spec := Text.trim spec
  if spec = "" || spec = Version.latest then r.latest t
  else return Text.dropLeadingV spec

/-- The digest that is published for the archive of a release. -/
def digest (release : Release) : Session String := do
  let content ← fetchText release.checksum.url
  let found :=
    match release.checksum with
    | .sidecar _ => Checksum.inSidecar? content
    | .manifest _ => Checksum.inManifest? content release.archiveName
  match found with
  | some digest => return digest
  | none => throw (.checksumMissing release.archiveName release.checksum.url)

/-- Download, verify and unpack the binary of a version of a tool. -/
def download (r : Resolver) (t : Tool) (version : String) : Session ByteArray := do
  if !r.platform.isSupported then throw (.unsupportedPlatform r.platform)
  let release ← Session.lift (Release.find t version r.platform r.sites)
  let archive ← fetch release.archiveUrl
  let expected ← digest release
  Session.lift (Checksum.verify archive expected release.archiveName)
  Session.lift (release.unpack archive)

/-- The path of the binary of a tool at a version. -/
def resolve (r : Resolver) (t : Tool) (spec : String) : Session Path := do
  let version ← r.version t spec
  if Cache.isCached (← Session.workspace) r.cacheRoot t version r.platform then
    return Cache.binaryPath r.cacheRoot t version r.platform
  else
    let binary ← r.download t version
    Cache.store r.cacheRoot t version r.platform binary

/-- The path of the binary of a tool: the local one, if there is one. -/
def locate (r : Resolver) (t : Tool) (spec : String) : Session Path :=
  match r.overrides t with
  | some path => return path
  | none => r.resolve t spec

end Resolver
end Tool
end ReleaseLint
