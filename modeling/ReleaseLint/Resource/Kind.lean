/-
# Kinds of resources

A YAML file declares a kind when one of its documents has it under the key `kind`.
A file that breaks off before that, as a template does, declares the kind that one
of its lines writes:

    kind: blanks Kind blanks

The blanks may run over several lines.
-/

import ReleaseLint.Text.Blank
import ReleaseLint.Yaml.Value

namespace ReleaseLint
namespace Resource

/-- The kinds that are found by what a file declares. -/
inductive Kind where
  | preflight
  | supportBundle
  | helmChart
deriving DecidableEq, Repr, Inhabited

namespace Kind

/-- The name of a kind in documents. -/
def name : Kind → String
  | preflight => "Preflight"
  | supportBundle => "SupportBundle"
  | helmChart => "HelmChart"

/-- What a resource of a kind is called. -/
def description : Kind → String
  | preflight => "preflight spec"
  | supportBundle => "support bundle spec"
  | helmChart => "HelmChart manifest"

/-- Whether a document is of a kind. -/
def isKindOf (k : Kind) (document : Yaml.Value) : Bool :=
  (document.get? "kind").bind (·.string?) == some k.name

/-- Whether a text begins with a line that declares a kind. -/
def beginsWithDeclaration (k : Kind) (s : List Char) : Bool :=
  let leader := "kind:".toList
  let behind := s.drop leader.length
  let value := behind.dropWhile Text.isBlank
  let rest := value.drop k.name.length
  leader.isPrefixOf s && (behind.head?.any Text.isBlank) && k.name.toList.isPrefixOf value &&
    ((rest.dropWhile Text.isBlank).isEmpty || (rest.takeWhile Text.isBlank).contains '\n')

/-- Whether one of the lines of a text declares a kind. -/
def isDeclaredByLine (k : Kind) (s : List Char) : Bool :=
  k.beginsWithDeclaration s || go s
where
  /-- Whether a line behind a line feed declares the kind. -/
  go : List Char → Bool
    | [] => false
    | c :: r => (c == '\n' && k.beginsWithDeclaration r) || go r

/-- Whether the documents of a text declare a kind. -/
def isDeclaredBy (k : Kind) (content : String) : Bool :=
  let documents := Yaml.Values.ofText content
  documents.values.any k.isKindOf ||
    (documents.fault.isSome && k.isDeclaredByLine content.toList)

end Kind
end Resource
end ReleaseLint
