/-
# Tar archives

Blocks of 512 bytes: a header, then the data of the entry in whole blocks.  A block
of zeros, or the end of the data, ends the archive.

| bytes | header field |
| --- | --- |
| 0–99 | path |
| 124–135 | size, in octal digits or as a binary number with the highest bit set |
| 148–155 | sum of the header's bytes, with spaces in this place |
| 156 | kind: `0` or NUL for a regular file |
| 257–264 | `ustar`, NUL, `00`, or `ustar`, two spaces, NUL |
| 345–499 | directory in front of the path, after the first of these marks |

Entries of kind `L` and `x` hold a longer path, or lines with other fields, of the next
one.  Entries of kind `S` are files with gaps; a map in the header, and in blocks behind
it, tells what there is of them.

| bytes | field of the map |
| --- | --- |
| 386–481 | four pieces: place and length in 12 octal digits each |
| 482 | 1 if a block with 21 pieces follows; there, byte 504 |
| 483–494 | size of the file with its gaps |
-/

import ReleaseLint.Archive.Entry
import ReleaseLint.Archive.Gzip
import ReleaseLint.Text.Utf8

namespace ReleaseLint
namespace Archive
namespace Tar

/-- The size of a block. -/
def blockSize : Nat := 512

/-- The number of 64 bits that decimal digits write, with a plus sign in front or not. -/
def decimal? (s : List UInt8) : Option Nat :=
  let digits := if s.head? = some 0x2B then s.tail else s
  if digits.isEmpty then none
  else
    digits.foldlM (fun n b =>
      if 0x30 ≤ b && b ≤ 0x39 then
        let n := n * 10 + (b.toNat - 0x30)
        if n < UInt64.size then some n else none
      else none) 0

/-- A header. -/
abbrev Header := ByteArray

namespace Header

/-- The bytes of a field up to the first zero. -/
def field (h : Header) (start length : Nat) : List UInt8 :=
  ((h.extract start (start + length)).toList).takeWhile (· != 0)

/-- The kind of an entry. -/
def kind (h : Header) : UInt8 :=
  h.data.getD 156 0

/-- Whether a header is marked as one of POSIX. -/
def isPosix (h : Header) : Bool :=
  (h.extract 257 265).toList == [0x75, 0x73, 0x74, 0x61, 0x72, 0, 0x30, 0x30]

/-- Whether a header is marked as one of GNU. -/
def isGnu (h : Header) : Bool :=
  (h.extract 257 265).toList == [0x75, 0x73, 0x74, 0x61, 0x72, 0x20, 0x20, 0]

/-- The number that octal digits write, with blanks around them. -/
def octal? (s : List UInt8) : Option Nat :=
  let digits := Text.trimChars ((Text.decode ⟨s.toArray⟩).toList)
  let digits := if digits.head? = some '+' then digits.tail else digits
  if digits.isEmpty then none
  else
    digits.foldlM (fun n c =>
      if '0' ≤ c && c ≤ '7' then
        let n := n * 8 + (c.toNat - '0'.toNat)
        if n < UInt64.size then some n else none
      else none) 0

/-- The size of the data behind a header. -/
def size? (h : Header) : Option Nat :=
  if 0x80 ≤ (h.data.getD 124 0).toNat then
    some ((h.extract 128 136).toList.foldl (fun n b => n * 256 + b.toNat) 0)
  else octal? (h.field 124 12)

/-- The sum of the bytes of a header, with spaces for the sum itself. -/
def sum (h : Header) : Nat :=
  ((h.extract 0 148).toList ++ (h.extract 156 blockSize).toList).foldl (fun n b => n + b.toNat) 256

/-- Whether a header has the right sum. -/
def isSound (h : Header) : Bool :=
  octal? (h.field 148 8) == some h.sum

/-- The path in a header. -/
def path (h : Header) : List UInt8 :=
  let name := h.field 0 100
  let directory := if h.isPosix then h.field 345 155 else []
  if directory.isEmpty then name else directory ++ [0x2F] ++ name

end Header

/-- A line of an entry of kind `x`: its key and its value, unless it is malformed. -/
abbrev Line := Option (List UInt8 × List UInt8)

/-- The line `length key=value` that bytes write, where the length counts the line feed
behind them. -/
def lineOf (bytes : List UInt8) : Line := do
  let front := bytes.takeWhile (· != 0x20)
  if front.length = bytes.length then none
  let length ← decimal? front
  if bytes.length + 1 ≠ length then none
  let rest := bytes.drop (front.length + 1)
  let key := rest.takeWhile (· != 0x3D)
  if key.length = rest.length then none
  some (key, rest.drop (key.length + 1))

/-- The lines of an entry of kind `x`, up to an empty one. -/
def linesOf (data : ByteArray) : List Line :=
  ((data.toList.splitOn 0x0A).takeWhile (!·.isEmpty)).map lineOf

/-- The path that lines announce: the first one, whatever is malformed. -/
def pathIn? (lines : List Line) : Option (List UInt8) :=
  (lines.filterMap id).find? (fun line => line.1 == "path".toUTF8.toList) |>.map (·.2)

/-- The size that lines announce, if no line in front of it is malformed and it is a
number. -/
def sizeIn? : List Line → Option Nat
  | some (key, value) :: r => if key == "size".toUTF8.toList then decimal? value else sizeIn? r
  | _ => none

/-- The header at a place, `none` at the end of the archive. -/
def header (f : Flow) (start : Nat) : Except Fault (Option Header) :=
  if f.data.size < start then .error .unreadable
  else if f.data.size = start then (if f.sound then .ok none else .error .unreadable)
  else if f.data.size < start + blockSize then .error .unreadable
  else
    let h : Header := f.data.extract start (start + blockSize)
    if h.toList.all (· == 0) then .ok none
    else if h.isSound then .ok (some h)
    else .error .badHeader

/-- What the entries before an entry say about it. -/
structure Announced where
  path : Option (List UInt8)
  link : Bool
  lines : Option (List Line)

/-- Nothing is said. -/
def Announced.none : Announced := ⟨.none, false, .none⟩

/-- Whether anything is said. -/
def Announced.isSome (a : Announced) : Bool :=
  a.path.isSome || a.link || a.lines.isSome

/-- The kinds `L`, `K`, `x` and `g` of entries that describe others. -/
def describing : List UInt8 := [0x4C, 0x4B, 0x78, 0x67]

/-- The path of an entry. -/
def entryPath (a : Announced) (h : Header) : List UInt8 :=
  match a.path with
  | some p => if p.getLast? = some 0 then p.dropLast else p
  | none => ((a.lines.bind pathIn?).getD h.path)

/-- The size of the data of an entry: the announced one counts for more than the one in
the header, which has to be a number nevertheless.  The entries that describe another
one, of kind `L`, `K`, `x` or `g`, have the size in their header. -/
def entrySize? (a : Announced) (h : Header) : Option Nat := do
  let written ← h.size?
  if describing.contains h.kind then written
  else (a.lines.bind sizeIn?).getD written

/-- The place behind an entry with data of some size, which is filled up to whole blocks.
Neither the size nor the place may exceed 64 bits. -/
def behind? (start size : Nat) : Option Nat :=
  let next := start + blockSize + (size + (blockSize - 1)) / blockSize * blockSize
  if size + (blockSize - 1) < UInt64.size && next < UInt64.size then some next else none

/-- What a map of a sparse file comes to: where its data ends in the file, and how many
bytes of the archive it uses. -/
structure Extent where
  reach : Nat
  used : Nat

/-- Add the piece that an entry of a map describes, to data of `size` bytes. -/
def Extent.add (size : Nat) (e : Extent) (piece : ByteArray) : Option Extent :=
  if piece.data.getD 0 0 == 0 || piece.data.getD 12 0 == 0 then some e
  else do
    let place ← Header.octal? (Header.field piece 0 12)
    let length ← Header.octal? (Header.field piece 12 12)
    if length ≠ 0 && e.used % blockSize ≠ 0 then none
    if place < e.reach || UInt64.size ≤ place + length || size < e.used + length then none
    some ⟨place + length, e.used + length⟩

/-- The extent with the `n` pieces of a map whose entries begin at `start`. -/
def Extent.addAll (size : Nat) (e : Extent) (map : ByteArray) (start n : Nat) : Option Extent :=
  (List.range n).foldlM (fun e i =>
    e.add size (map.extract (start + 24 * i) (start + 24 * (i + 1)))) e

/-- The extent with the pieces of the blocks of a map from `start` on, at most `n`, and
the place behind these blocks.  A block says whether another one follows. -/
def furtherMaps (f : Flow) (size : Nat) : (n : Nat) → (start : Nat) → Extent → Option (Extent × Nat)
  | 0, _, _ => none
  | n + 1, start, e =>
    if f.data.size < start + blockSize then none
    else do
      let map := f.slice start blockSize
      let e ← e.addAll size map 0 21
      if map.data.getD 504 0 == 1 then furtherMaps f size n (start + blockSize) e
      else some (e, start + blockSize)

/-- How many bytes the map of a sparse file takes behind its header.  The map has to
reach the end of the file and to use all data. -/
def mapSize? (f : Flow) (h : Header) (start size : Nat) : Option Nat := do
  if !h.isGnu then none
  let e ← Extent.addAll size ⟨0, 0⟩ h 386 4
  let first := start + blockSize
  let (e, last) ←
    if h.data.getD 482 0 == 1 then furtherMaps f size (f.data.size / blockSize + 1) first e
    else some (e, first)
  let reach ← Header.octal? (Header.field h 483 12)
  if e.reach ≠ reach || e.used ≠ size then none
  some (last - first)

/-- The entries from a place on, at most `n` of them. -/
def listFrom (f : Flow) : (n : Nat) → (start : Nat) → Announced → Listing
  | 0, _, _ => ⟨[], some .unreadable⟩
  | n + 1, start, a =>
    match header f start with
    | .error e => ⟨[], some e⟩
    | .ok none => ⟨[], if a.isSome then some .badHeader else none⟩
    | .ok (some h) =>
      match (entrySize? a h).bind fun size => (behind? start size).map (size, ·) with
      | none => ⟨[], some .badHeader⟩
      | some (size, next) =>
        let data := f.part (start + blockSize) size
        let marked := h.isPosix || h.isGnu
        let announce (known : Bool) (set : ByteArray → Announced) : Listing :=
          if known then ⟨[], some .badHeader⟩
          else
            match data with
            | .error e => ⟨[], some e⟩
            | .ok data => listFrom f n next (set data)
        if marked && h.kind == 0x4C then
          announce a.path.isSome fun data => { a with path := some data.toList }
        else if marked && h.kind == 0x4B then announce a.link fun _ => { a with link := true }
        else if marked && h.kind == 0x78 then
          announce a.lines.isSome fun data => { a with lines := some (linesOf data) }
        else if h.kind == 0x53 then
          match mapSize? f h start size with
          | none => ⟨[], some .badHeader⟩
          | some map => listFrom f n (next + map) .none
        else
          let entry : Entry :=
            ⟨Text.decode ⟨(entryPath a h).toArray⟩, h.kind == 0x30 || h.kind == 0, data⟩
          let rest := listFrom f n next .none
          ⟨entry :: rest.entries, rest.fault⟩

/-- The entries of a tar archive in gzip data. -/
def listing (data : ByteArray) : Listing :=
  let f := Gzip.expand data
  listFrom f (f.data.size / blockSize + 1) 0 .none

end Tar
end Archive
end ReleaseLint
