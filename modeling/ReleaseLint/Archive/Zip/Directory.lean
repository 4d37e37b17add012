/-
# The directory of a zip archive

A record behind the directory says where it is.  The last one counts that leads to a
directory whose entries can all be read.

| byte | field of the record `PK 05 06` |
| --- | --- |
| 4, 6 | number of this disk, and of the one with the directory |
| 8, 10 | number of entries on this disk, and altogether |
| 16 | place of the directory |
| 20 | length of the comment that follows |

| byte | field of the large record `PK 06 06` |
| --- | --- |
| 4 | its length without the first 12 bytes |
| 16, 20 | number of this disk, and of the one with the directory |
| 24, 32 | number of entries on this disk, and altogether |
| 48 | place of the directory |

| byte | field of the pointer `PK 06 07` to the large record |
| --- | --- |
| 4 | number of the disk with the directory |
| 8 | place of the large record |
| 16 | number of disks |

Something may stand in front of an archive.  The places in it are then too small, by the
distance between where something should be and where it is found.
-/

import ReleaseLint.Archive.Zip.Item

namespace ReleaseLint
namespace Archive
namespace Zip

/-- Where a directory is: the place of its first entry, how many entries it has, and by
how much the archive is moved. -/
structure Directory where
  start : Nat
  count : Nat
  shift : Nat
deriving DecidableEq, Repr

/-- The first place from `start` on and in front of `stop` that satisfies a test. -/
def firstPlace? (start stop : Nat) (test : Nat → Bool) : Option Nat :=
  (List.range' start (stop - start)).find? test

namespace Directory

/-- The length of the pointer to a large record. -/
def pointerSize : Nat := 20

/-- Whether a large record at a place belongs to a pointer: it ends where the pointer
begins, and there is room for the entries in front of it. -/
def isLarge (data : ByteArray) (pointer i : Nat) : Bool :=
  isMark data 0x06064B50 i && i + 56 ≤ data.size &&
    44 ≤ long data (i + 4) && long data (i + 4) + 12 == pointer - i &&
    Gzip.word data (i + 20) == Gzip.word data (pointer + 4) &&
    46 * long data (i + 32) + long data (i + 48) ≤ i

/-- The directory of the large record that a pointer leads to. -/
def ofPointer? (data : ByteArray) (pointer : Nat) : Option Directory := do
  let expected := long data (pointer + 8)
  if pointer ≤ expected || 1 < Gzip.word data (pointer + 16) then none
  let i ← firstPlace? expected pointer (isLarge data pointer)
  let count := long data (i + 32)
  if count < long data (i + 24) || Gzip.word data (i + 16) != Gzip.word data (i + 20) then none
  let shift := i - expected
  some ⟨long data (i + 48) + shift, count, shift⟩

/-- The directory of a record without a large one.  The archive is moved so that the
first entry from the given place on is at the right one. -/
def ofRecord? (data : ByteArray) (i : Nat) : Option Directory := do
  let place := Gzip.word data (i + 16)
  let shift ←
    if half data (i + 10) = 0 then some (i - place)
    else (firstPlace? place i (isMark data 0x02014B50)).map (· - place)
  if half data (i + 4) != half data (i + 6) then none
  some ⟨place + shift, half data (i + 8), shift⟩

/-- Whether a record may leave numbers to a large one. -/
def mayBeLarge (data : ByteArray) (i : Nat) : Bool :=
  half data (i + 10) == 0xFFFF || Gzip.word data (i + 16) == 0xFFFFFFFF

/-- The directory of the record at a place. -/
def at? (data : ByteArray) (i : Nat) : Option Directory :=
  if data.size < i + 22 + half data (i + 20) then none
  else if mayBeLarge data i && pointerSize ≤ i && isMark data 0x07064B50 (i - pointerSize) then
    ofPointer? data (i - pointerSize)
  else ofRecord? data i

/-- At most `n` entries from a place on. -/
def itemsFrom? (data : ByteArray) (shift : Nat) : (n : Nat) → (i : Nat) → Option (List Item)
  | 0, _ => some []
  | n + 1, i => do
    let (item, next) ← Item.at? data shift i
    return item :: (← itemsFrom? data shift n next)

/-- The entries of a directory. -/
def items? (data : ByteArray) (d : Directory) : Option (List Item) :=
  itemsFrom? data d.shift d.count d.start

end Directory

/-- The entries with distinct names: a later one takes the place of an earlier one. -/
def distinct (items : List Item) : List Item :=
  items.foldl (fun done item =>
    if done.any (·.name == item.name) then
      done.map fun d => if d.name == item.name then item else d
    else done ++ [item]) []

/-- The entries of the directory of an archive. -/
def items? (data : ByteArray) : Option (List Item) :=
  (((List.range data.size).reverse.filter (isMark data 0x06054B50)).findSome? fun i =>
    (Directory.at? data i).bind (Directory.items? data)).map distinct

end Zip
end Archive
end ReleaseLint
