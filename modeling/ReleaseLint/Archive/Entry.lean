/-
# The entries of an archive

An archive is read as its entries in order, up to the first fault.  The file asked
for is the content of the first regular entry whose path, with slashes for
backslashes, ends with the text asked for.
-/

import ReleaseLint.Text.Blank

namespace ReleaseLint
namespace Archive

/-- Why an archive or an entry cannot be read. -/
inductive Fault where
  | unreadable
  | badHeader
  | badChecksum
  | noDirectory
  | unsupported
deriving DecidableEq, Repr, Inhabited

/-- The wording of a fault. -/
def Fault.message : Fault → String
  | unreadable => "unexpected end of file or corrupt deflate stream"
  | badHeader => "invalid archive header"
  | badChecksum => "invalid checksum"
  | noDirectory => "could not find central directory end"
  | unsupported => "unsupported archive"

/-- One entry of an archive. -/
structure Entry where
  path : String
  regular : Bool
  content : Except Fault ByteArray

/-- The entries of an archive before the first fault. -/
structure Listing where
  entries : List Entry
  fault : Option Fault

/-- Why no file is taken from an archive. -/
inductive Refusal where
  | fault (f : Fault)
  | notFound
deriving DecidableEq, Repr

/-- Whether the path of an entry ends with a text. -/
def Entry.endsWith (e : Entry) (name : String) : Bool :=
  Text.endsWith (Text.replaceChar '\\' '/' e.path) name

/-- The content of the first regular entry whose path ends with `name`. -/
def Listing.file (l : Listing) (name : String) : Except Refusal ByteArray :=
  match l.entries.find? fun e => e.regular && e.endsWith name with
  | some e =>
    match e.content with
    | .ok data => .ok data
    | .error f => .error (.fault f)
  | none =>
    match l.fault with
    | some f => .error (.fault f)
    | none => .error .notFound

end Archive
end ReleaseLint
