/-
# Zip archives

A directory near the end lists the entries.  Each of them has a header of its own,
`PK 03 04`, in front of its data, which is stored as it is or deflated.
-/

import ReleaseLint.Archive.Entry
import ReleaseLint.Archive.Zip.Directory

namespace ReleaseLint
namespace Archive
namespace Zip

namespace Item

/-- Data with the right checksum. -/
def checked (e : Item) (data : ByteArray) : Except Fault ByteArray :=
  if (crc32 data).toNat = e.checksum then .ok data else .error .badChecksum

/-- What deflated data of an entry expands to.  Data that stops in front of its end is as
good as its checksum says, unless there is none. -/
def expanded (e : Item) (raw : ByteArray) : Except Fault ByteArray :=
  match Deflate.expand raw 0 with
  | (out, .ok _) => e.checked out
  | (out, .error .truncated) => if raw.isEmpty then .error .unreadable else e.checked out
  | (_, .error .corrupt) => .error .unreadable

/-- The content of an entry, once its own header is found. -/
def content (data : ByteArray) (e : Item) : Except Fault (Except Fault ByteArray) :=
  if e.encrypted then .error .unsupported
  else if data.size < e.place + 30 || !isMark data 0x04034B50 e.place then .error .badHeader
  else if e.aes then .error .unsupported
  else
    let start := e.place + 30 + half data (e.place + 26) + half data (e.place + 28)
    let raw := (Flow.mk data true).slice start e.compressed
    if e.method = 0 then .ok (e.checked raw)
    else if e.method = 8 then .ok (e.expanded raw)
    else .error .unsupported

end Item

/-- The entries of items up to the first that cannot be opened. -/
def listItems (data : ByteArray) : List Item → Listing
  | [] => ⟨[], none⟩
  | item :: r =>
    match item.content data with
    | .error e => ⟨[], some e⟩
    | .ok c =>
      let rest := listItems data r
      ⟨⟨item.name, !item.isDirectory, c⟩ :: rest.entries, rest.fault⟩

/-- The entries of a zip archive. -/
def listing (data : ByteArray) : Listing :=
  match items? data with
  | none => ⟨[], some .noDirectory⟩
  | some items => listItems data items

end Zip
end Archive
end ReleaseLint
