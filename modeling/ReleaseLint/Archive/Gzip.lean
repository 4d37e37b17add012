/-
# Gzip

    member := 1F 8B 08 flags, 6 bytes, extra ? name ? comment ? check ? deflated data, checksum, size

Only the first member is read.  Its data can be read in order before it is known
whether the end is right: a reader that never asks for more than there is does not
notice a fault behind it.
-/

import ReleaseLint.Archive.Deflate
import ReleaseLint.Archive.Entry

namespace ReleaseLint
namespace Archive

/-- Bytes that are read in order.  Asking for more than all of them finds their end
if `sound` holds and fails otherwise. -/
structure Flow where
  data : ByteArray
  sound : Bool

namespace Flow

/-- A flow that fails at once. -/
def broken : Flow := ⟨ByteArray.empty, false⟩

/-- The bytes of a flow from `start` on, at most `length`. -/
def slice (f : Flow) (start length : Nat) : ByteArray :=
  f.data.extract (min start f.data.size) (min (start + length) f.data.size)

/-- The bytes of a flow from `start` on, at most `length`, as reading all of them gives. -/
def part (f : Flow) (start length : Nat) : Except Fault ByteArray :=
  if f.data.size < start + length && !f.sound then .error .unreadable
  else .ok (f.slice start length)

end Flow

namespace Gzip

/-- The byte at a place. -/
def byte (data : ByteArray) (i : Nat) : Nat :=
  (data.data.getD i 0).toNat

/-- The number of four bytes, the lowest first. -/
def word (data : ByteArray) (i : Nat) : Nat :=
  byte data i + 0x100 * (byte data (i + 1) + 0x100 * (byte data (i + 2) + 0x100 * byte data (i + 3)))

/-- The largest number of bytes of a text in the header. -/
def maxText : Nat := 65535

/-- The place behind the text that ends in a zero byte, if it does in time. -/
def skipText? (data : ByteArray) (i : Nat) : Option Nat :=
  (((data.extract i (i + maxText + 1)).toList).findIdx? (· == 0)).map (i + · + 1)

/-- The place of the deflated data behind the header, if there is a header. -/
def bodyStart? (data : ByteArray) : Option Nat := do
  if data.size < 10 || byte data 0 != 0x1F || byte data 1 != 0x8B || byte data 2 != 8 then none
  let flags := byte data 3
  if flags ≥ 32 then none
  let i := 10
  let i := if flags / 4 % 2 = 1 then i + 2 + byte data i + 0x100 * byte data (i + 1) else i
  let i ← if flags / 8 % 2 = 1 then skipText? data i else some i
  let i ← if flags / 16 % 2 = 1 then skipText? data i else some i
  let i ←
    if flags / 2 % 2 = 1 then
      if (crc32 (data.extract 0 i)).toNat % 0x10000 = byte data i + 0x100 * byte data (i + 1) then
        some (i + 2)
      else none
    else some i
  if data.size < i then none else some i

/-- How many bytes are taken in and expanded at a time. -/
def stretch : Nat := 0x8000

/-- How many bytes can be read before a fault behind `size` expanded bytes: whole
stretches of them that something follows, and what the whole stretches of the data in
front of the fault expand to. -/
def readable (data : ByteArray) (start size : Nat) : Nat :=
  let ahead := (List.range (data.size / stretch)).findSome? fun k =>
    match Deflate.expand (data.extract 0 ((data.size / stretch - k) * stretch)) start with
    | (out, .error .truncated) => some out.size
    | _ => none
  max ((size - 1) / stretch * stretch) (ahead.getD 0)

/-- The data of the first member. -/
def expand (data : ByteArray) : Flow :=
  match bodyStart? data with
  | none => .broken
  | some i =>
    match Deflate.expand data i with
    | (out, .error .truncated) => ⟨out, false⟩
    | (out, .error .corrupt) => ⟨out.extract 0 (readable data i out.size), false⟩
    | (out, .ok i) =>
      ⟨out, i + 8 ≤ data.size && word data i == (crc32 out).toNat &&
        word data (i + 4) == out.size % UInt32.size⟩

end Gzip
end Archive
end ReleaseLint
