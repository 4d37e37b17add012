/-
# Embedded cluster configs

A document of kind `Config` in the API group of embedded clusters.  Its version stands
under `spec.version`.  Templates are no YAML: they are recognised by the texts they
hold, and their version is the first one that a line of its own writes without
template braces.
-/

import ReleaseLint.Text.Blank
import ReleaseLint.Yaml.Value

namespace ReleaseLint
namespace Resource
namespace ClusterConfig

/-- The API group of embedded cluster configs. -/
def apiGroup : String := "embeddedcluster.replicated.com"

/-- Whether a document is an embedded cluster config. -/
def isConfig (document : Yaml.Value) : Bool :=
  (document.get? "kind").bind (·.string?) == some "Config" &&
    ((document.get? "apiVersion").bind (·.string?)).any fun v => Text.contains v apiGroup

/-- Whether a text looks like an embedded cluster config. -/
def looksLikeConfig (content : String) : Bool :=
  (Text.contains content "kind: Config" || Text.contains content "kind:Config") &&
    Text.contains content apiGroup

/-- Whether a text holds an embedded cluster config. -/
def isIn (content : String) : Bool :=
  let documents := Yaml.Values.ofText content
  documents.values.any isConfig || (documents.fault.isSome && looksLikeConfig content)

/-- Why no version can be read. -/
inductive Fault where
  | notConfig
  | noVersion
deriving DecidableEq, Repr, Inhabited

/-- The version that a config declares. -/
def declaredVersion? (document : Yaml.Value) : Option String := do
  let spec ← document.get? "spec"
  let version ← spec.get? "version"
  let text := Text.trim (← version.string?)
  if text = "" then none else some text

/-- The version that a line writes, unless a template fills it in. -/
def lineVersion? (line : String) : Option String := do
  let value ← Text.after? "version:" (Text.trim line)
  let isQuote (c : Char) : Bool := c == '"' || c == '\''
  let text := Text.dropEnd isQuote (Text.dropStart isQuote (Text.trim value))
  if text = "" || Text.contains text "\x7b\x7b" then none else some text

/-- The version of the first embedded cluster config of a text. -/
def version (content : String) : Except Fault String :=
  match (Yaml.Values.ofText content).values.find? isConfig with
  | some document => ((declaredVersion? document).map .ok).getD (.error .noVersion)
  | none =>
    if !looksLikeConfig content then .error .notConfig
    else (((Text.lines content).findSome? lineVersion?).map .ok).getD (.error .noVersion)

end ClusterConfig
end Resource
end ReleaseLint
