/-
# The two containers of release archives

Gzip with tar inside, and zip.  Both are read as their entries, so that a file is
found in both in the same way.
-/

import ReleaseLint.Archive.Tar
import ReleaseLint.Archive.Zip

namespace ReleaseLint
namespace Archive

/-- The container of an archive. -/
inductive Format where
  | tarGz
  | zip
deriving DecidableEq, Repr, Inhabited

/-- The entries of an archive. -/
def Format.listing : Format → ByteArray → Listing
  | tarGz => Tar.listing
  | zip => Zip.listing

/-- The file of an archive whose path ends with `name`. -/
def Format.extract (f : Format) (data : ByteArray) (name : String) : Except Refusal ByteArray :=
  (f.listing data).file name

end Archive
end ReleaseLint
