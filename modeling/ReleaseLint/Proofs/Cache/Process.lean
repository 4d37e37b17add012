/-
# Resolver processes, step by step

`Resolver.resolve` runs from its beginning to its end without anyone in between.  A
process does the same in single steps, so that others can act between any two of them:

| stage | next step |
| --- | --- |
| `lookUp` | the version, asked for unless it is known |
| `check` | is the binary cached? |
| `plan` | the release |
| `fetch` | the archive of the release |
| `sum` | the published checksum |
| `verify` | archive against digest |
| `unpack` | the binary |
| `prepare` | one directory of the cache |
| `create` | an empty temporary file in the directory of the binary |
| `write` | more bytes of the binary; when all are there, permission to execute |
| `rename` | the temporary file takes the place of the binary |

A process may stop at any stage, killed or refused by the system, with its temporary
file left behind or removed (`Step.stop`).  `System.Step` lets any process of a family
take its next step on the one workspace that all of them share.
-/

import ReleaseLint.Proofs.Tree.Lookup
import ReleaseLint.Tool.Resolver
import Mathlib.Logic.Function.Basic
import Mathlib.Logic.Relation

namespace ReleaseLint

/-- What a reply to a request for a URL brings. -/
def Reply.body (url : String) : Reply → Except Error ByteArray
  | .unreachable => .error (.download url .unreachable)
  | .response code body =>
    if 200 ≤ code && code < 300 then .ok body
    else .error (.download url (.status (Tool.statusLine code)))

namespace Tool

/-- The text of a downloaded file. -/
def textOf (data : ByteArray) : String :=
  let text := Text.decode data
  (Text.after? "\ufeff" text).getD text

/-- What a download can come to, with the requests that it makes. -/
inductive Fetches (url : String) : List Request → Except Error ByteArray → Prop where
  | tooLong : (Url.ofText url).isTooLong = true →
      Fetches url [] (.error (.download url .addressTooLong))
  | reply (r : Reply) : (Url.ofText url).isTooLong = false →
      Fetches url [⟨url, r⟩] (r.body url)

/-- The digest that the checksum of a release gives for its archive. -/
def Release.digestIn (release : Release) (content : String) : Except Error String :=
  let found :=
    match release.checksum with
    | .sidecar _ => Checksum.inSidecar? content
    | .manifest _ => Checksum.inManifest? content release.archiveName
  match found with
  | some digest => .ok digest
  | none => .error (.checksumMissing release.archiveName release.checksum.url)

/-- The version that a document recommends for a tool. -/
def Recommended.find (versions : Recommended) (t : Tool) : Except Error String :=
  match versions.version? t with
  | some version => .ok version
  | none => .error (.lookup t .unpublished)

/-- What a process is to resolve. -/
structure Task where
  resolver : Resolver
  tool : Tool
  spec : String

namespace Task

/-- The recommended versions that a download brings. -/
def versionsIn (task : Task) (result : Except Error ByteArray) : Except Error Recommended :=
  let failed (fault : DownloadFault) : Error :=
    .lookup task.tool (.download task.resolver.versionsUrl fault)
  match result with
  | .error (.download _ fault) => .error (failed fault)
  | .error e => .error e
  | .ok data =>
    match Recommended.ofText (textOf data) with
    | .error m => .error (failed (.notVersions m))
    | .ok versions => .ok versions

/-- The version, as far as it is clear without a request. -/
def version? (task : Task) (known : Option Recommended) : Option (Except Error String) :=
  let spec := Text.trim task.spec
  if spec = "" || spec = Version.latest then known.map (·.find task.tool)
  else some (.ok (Text.dropLeadingV spec))

/-- The release of a version. -/
def release (task : Task) (version : String) : Except Error Release :=
  if !task.resolver.platform.isSupported then .error (.unsupportedPlatform task.resolver.platform)
  else Release.find task.tool version task.resolver.platform task.resolver.sites

/-- Where the binary of a version belongs. -/
def target (task : Task) (version : String) : Path :=
  Cache.binaryPath task.resolver.cacheRoot task.tool version task.resolver.platform

/-- The directory of the binary of a version. -/
def directory (task : Task) (version : String) : Path :=
  (task.target version).parent?.getD task.resolver.cacheRoot

/-- The file name of the binary. -/
def binaryName (task : Task) : String :=
  task.tool.binaryName task.resolver.platform

end Task

/-- How far a process has come: what it has in hand for its next step. -/
inductive Stage where
  | lookUp
  | check
  | plan
  | fetch (release : Release)
  | sum (release : Release) (archive : ByteArray)
  | verify (release : Release) (archive : ByteArray) (digest : String)
  | unpack (release : Release) (archive : ByteArray)
  | prepare (binary : ByteArray) (here : Path) (rest : List Segment)
  | create (binary : ByteArray)
  | write (binary : ByteArray) (temporary : Names) (count : Nat)
  | rename (temporary : Names)
  | ended (outcome : Except Error Path)
  | stopped

namespace Stage

/-- Go on with a result, or end with its error. -/
def after {α : Type} (result : Except Error α) (next : α → Stage) : Stage :=
  match result with
  | .ok a => next a
  | .error e => .ended (.error e)

@[simp]
theorem after_ok {α : Type} (a : α) (next : α → Stage) : after (.ok a) next = next a := rfl

@[simp]
theorem after_error {α : Type} (e : Error) (next : α → Stage) :
    after (.error e) next = ended (.error e) := rfl

/-- Whether no step is left. -/
def isFinal : Stage → Bool
  | ended _ | stopped => true
  | _ => false

/-- The temporary file that a process has made. -/
def temporary? : Stage → Option Names
  | write _ temporary _ | rename temporary => some temporary
  | _ => none

end Stage

/-- A process: its task, the recommended versions it knows, the version it has come to,
the requests it has made, and its stage. -/
structure Process where
  task : Task
  known : Option Recommended
  version : Option String
  requests : List Request
  stage : Stage

namespace Process

/-- A process that has done nothing. -/
def start (task : Task) (known : Option Recommended) : Process :=
  ⟨task, known, none, [], .lookUp⟩

/-- Take over a version. -/
def settle (p : Process) : Except Error String → Process
  | .ok version => { p with version := some version, stage := .check }
  | .error e => { p with stage := .ended (.error e) }

/-- Take over the recommended versions. -/
def learn (p : Process) : Except Error Recommended → Process
  | .ok versions => { p with known := some versions }.settle (versions.find p.task.tool)
  | .error e => { p with stage := .ended (.error e) }

/-- Whether a name is one of those that temporary files are given. -/
def IsTemporaryName (s : String) : Prop :=
  Text.beginsWith s ".tmp" = true ∧ '/' ∉ s.toList

/-- The stage in which the directories of a binary are made. -/
def preparation (w : Workspace) (task : Task) (version : String) (binary : ByteArray) : Stage :=
  match (task.directory version).fault? with
  | some _ => .ended (.error (.cacheDirectory (task.directory version)))
  | none => .prepare binary ⟨"/"⟩ (w.absolute (task.directory version)).segments

/-- The tree without the temporary file of a stage. -/
def cleaned (t : Tree) (stage : Stage) : Tree :=
  (stage.temporary?.map t.remove).getD t

/-- One step of a process on the workspace that it shares. -/
inductive Step (w : Workspace) (p : Process) : Workspace → Process → Prop where
  | settle {result} : p.stage = .lookUp → p.task.version? p.known = some result →
      Step w p w (p.settle result)
  | lookUp {log result} : p.stage = .lookUp → p.task.version? p.known = none →
      Fetches p.task.resolver.versionsUrl log result →
      Step w p w ({ p with requests := p.requests ++ log }.learn (p.task.versionsIn result))
  | hit {version} : p.stage = .check → p.version = some version →
      w.hasFile (p.task.target version) = true →
      Step w p w { p with stage := .ended (.ok (p.task.target version)) }
  | miss {version} : p.stage = .check → p.version = some version →
      w.hasFile (p.task.target version) = false → Step w p w { p with stage := .plan }
  | plan {version} : p.stage = .plan → p.version = some version →
      Step w p w { p with stage := .after (p.task.release version) .fetch }
  | fetch {release log result} : p.stage = .fetch release →
      Fetches release.archiveUrl log result →
      Step w p w { p with
        requests := p.requests ++ log
        stage := .after result (.sum release) }
  | sum {release archive log result} : p.stage = .sum release archive →
      Fetches release.checksum.url log result →
      Step w p w { p with
        requests := p.requests ++ log
        stage := .after (result.bind fun data => release.digestIn (textOf data))
          (.verify release archive) }
  | verify {release archive digest} : p.stage = .verify release archive digest →
      Step w p w { p with
        stage := .after (Checksum.verify archive digest release.archiveName)
          fun _ => .unpack release archive }
  | unpack {release archive version} : p.stage = .unpack release archive →
      p.version = some version →
      Step w p w { p with
        stage := .after (release.unpack archive) (preparation w p.task version) }
  | prepare {binary here s rest version tree} : p.stage = .prepare binary here (s :: rest) →
      p.version = some version → w.tree.makeDirectory here s = (tree, none) →
      Step w p { w with tree } { p with stage := .prepare binary (here / s.text) rest }
  | unprepared {binary here s rest version tree f} : p.stage = .prepare binary here (s :: rest) →
      p.version = some version → w.tree.makeDirectory here s = (tree, some f) →
      Step w p { w with tree }
        { p with stage := .ended (.error (.cacheDirectory (p.task.directory version))) }
  | prepared {binary here} : p.stage = .prepare binary here [] →
      Step w p w { p with stage := .create binary }
  | create {binary version names name} : p.stage = .create binary → p.version = some version →
      (p.task.target version).fault? = none →
      w.tree.locate (w.absolute (p.task.directory version)) = .ok names →
      IsTemporaryName name → w.tree.find? (names ++ [name]) = none →
      Step w p { w with tree := w.tree.put (names ++ [name]) (.file .empty false) }
        { p with stage := .write binary (names ++ [name]) 0 }
  | uncreated {binary version} : p.stage = .create binary → p.version = some version →
      ((p.task.target version).fault? ≠ none ∨
        ∃ f, w.tree.locate (w.absolute (p.task.directory version)) = .error f) →
      Step w p w { p with stage := .ended (.error (.cacheFile (p.task.target version))) }
  | write {binary temporary count more} : p.stage = .write binary temporary count →
      count < more → more ≤ binary.size →
      Step w p
        { w with tree := w.tree.put temporary (.file (binary.extract 0 more) false) }
        { p with stage := .write binary temporary more }
  | permit {binary temporary data x} : p.stage = .write binary temporary binary.size →
      w.tree.find? temporary = some (.file data x) →
      Step w p { w with tree := w.tree.put temporary (.file data true) }
        { p with stage := .rename temporary }
  | rename {temporary version names n} : p.stage = .rename temporary →
      p.version = some version →
      w.tree.locate (w.absolute (p.task.directory version)) = .ok names →
      w.tree.find? temporary = some n →
      w.tree.find? (names ++ [p.task.binaryName]) ≠ some .directory →
      Step w p
        { w with tree := (w.tree.remove temporary).put (names ++ [p.task.binaryName]) n }
        { p with stage := .ended (.ok (p.task.target version)) }
  | unrenamed {temporary version names} : p.stage = .rename temporary →
      p.version = some version →
      w.tree.locate (w.absolute (p.task.directory version)) = .ok names →
      w.tree.find? (names ++ [p.task.binaryName]) = some .directory →
      Step w p { w with tree := w.tree.remove temporary }
        { p with stage := .ended (.error (.cacheFile (p.task.target version))) }
  | stop (removes : Bool) : p.stage.isFinal = false →
      Step w p { w with tree := if removes then cleaned w.tree p.stage else w.tree }
        { p with stage := .stopped }

end Process

/-- Processes that share a workspace. -/
structure System (ι : Type) where
  workspace : Workspace
  process : ι → Process

namespace System

variable {ι : Type}

/-- The processes with these tasks before any of them has done anything. -/
def start (w : Workspace) (task : ι → Task) (known : ι → Option Recommended) : System ι :=
  ⟨w, fun i => .start (task i) (known i)⟩

/-- Any one of the processes takes its next step. -/
inductive Step (s : System ι) : System ι → Prop where
  | of (i : ι) {w : Workspace} {p : Process} : (s.process i).Step s.workspace w p →
      Step s ⟨w, open Classical in Function.update s.process i p⟩

/-- What the processes come to when they take steps in any order. -/
abbrev Run : System ι → System ι → Prop :=
  Relation.ReflTransGen Step

end System
end Tool
end ReleaseLint
