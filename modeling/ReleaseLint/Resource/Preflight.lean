/-
# Preflight specs of version `v1beta3`

Specs of this version are templates that take the values of charts.  A file holds
one if a document says so, or if the words stand anywhere in it.
-/

import ReleaseLint.Resource.Kind

namespace ReleaseLint
namespace Resource
namespace Preflight

/-- The version whose specs are templates. -/
def templated : String := "v1beta3"

/-- Whether a document is a preflight spec of the templated version. -/
def isTemplatedSpec (document : Yaml.Value) : Bool :=
  Kind.preflight.isKindOf document &&
    ((document.get? "apiVersion").bind (·.string?)).any fun v => Text.contains v templated

/-- Whether a text mentions a preflight spec of the templated version. -/
def mentionsTemplated (content : String) : Bool :=
  (Text.contains content "kind: Preflight" || Text.contains content "kind:Preflight") &&
    Text.contains content templated

/-- Whether a text holds a preflight spec of the templated version. -/
def isTemplated (content : String) : Bool :=
  (Yaml.Values.ofText content).values.any isTemplatedSpec || mentionsTemplated content

end Preflight
end Resource
end ReleaseLint
