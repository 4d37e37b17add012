/-
# Published checksums

| published as | digest of a file |
| --- | --- |
| sidecar | the first field of the text |
| manifest | the first field of the first line whose second field, less any stars in front, is the name of the file |

Digests are compared without regard to the case of ASCII letters.
-/

import ReleaseLint.Error
import ReleaseLint.Text.Lowercase
import ReleaseLint.Tool.Sha256

namespace ReleaseLint
namespace Tool
namespace Checksum

/-- The digest that a sidecar holds. -/
def inSidecar? (content : String) : Option String :=
  (Text.fields content).head?.map Text.lowercase

/-- The digest that a line of a manifest gives for a file. -/
def inLine? (file line : String) : Option String :=
  match Text.fields line with
  | digest :: name :: _ =>
    if Text.dropStart (· == '*') name = file then some (Text.lowercase digest) else none
  | _ => none

/-- The digest that a manifest gives for a file. -/
def inManifest? (content file : String) : Option String :=
  (Text.lines content).findSome? (inLine? file)

/-- Refuse bytes that do not have the digest that is expected of a file. -/
def verify (data : ByteArray) (expected file : String) : Except Error Unit :=
  let actual := Sha256.hex data
  let expected := Text.trim expected
  if Text.eqIgnoringCase actual expected then .ok ()
  else .error (.checksumMismatch file (Text.lowercase expected) actual)

end Checksum
end Tool
end ReleaseLint
