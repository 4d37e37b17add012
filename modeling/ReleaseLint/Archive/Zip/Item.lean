/-
# Entries of a directory of a zip archive

    entry := PK 01 02, 42 bytes, name, extra fields, comment
    extra field := kind, length, that many bytes

| bytes | holds |
| --- | --- |
| 8–9 | flags: 1 if the data is encrypted, 0x800 if the texts are UTF-8 |
| 10–11 | method |
| 16–19 | checksum |
| 20–27 | sizes, deflated and not |
| 28–33 | lengths of the name, the extra fields and the comment |
| 42–45 | place of the data's own header |

Texts that are not UTF-8 are in code page 437.

| extra field | holds |
| --- | --- |
| 0001 | sizes and place in 64 bits |
| 000A, 5455 | times |
| 6375, 7075 | comment and name in UTF-8, with a checksum of the ones they replace |
| 9901 | the method of data that is encrypted with AES |

Other fields are skipped.  One that reaches beyond the last of them is let pass, and
one that is wrong otherwise makes the directory unreadable.
-/

import ReleaseLint.Archive.Gzip
import ReleaseLint.Text.Utf8

namespace ReleaseLint
namespace Archive
namespace Zip

/-- The characters of code page 437 from 0x80 on. -/
def highCharacters : Array Char :=
  ("ÇüéâäàåçêëèïîìÄÅÉæÆôöòûùÿÖÜ¢£¥₧ƒáíóúñÑªº¿⌐¬½¼¡«»░▒▓│┤╡╢╖╕╣║╗╝╜╛┐" ++
    "└┴┬├─┼╞╟╚╔╩╦╠═╬╧╨╤╥╙╘╒╓╫╪┘┌█▄▌▐▀αßΓπΣσµτΦΘΩδ∞φε∩≡±≥≤⌠⌡÷≈°∙·√ⁿ²■\u00a0").toList.toArray

/-- The character of a byte in code page 437. -/
def character (b : UInt8) : Char :=
  if b < 0x80 then Char.ofNat b.toNat else highCharacters.getD (b.toNat - 0x80) ' '

/-- The number of two bytes, the lowest first. -/
def half (data : ByteArray) (i : Nat) : Nat :=
  Gzip.byte data i + 0x100 * Gzip.byte data (i + 1)

/-- The number of eight bytes, the lowest first. -/
def long (data : ByteArray) (i : Nat) : Nat :=
  Gzip.word data i + UInt32.size * Gzip.word data (i + 4)

/-- Whether the four bytes at a place are `PK` and two others, given as a number. -/
def isMark (data : ByteArray) (mark i : Nat) : Bool :=
  i + 4 ≤ data.size && Gzip.word data i == mark

/-- An entry of the directory. -/
structure Item where
  name : String
  rawName : ByteArray
  comment : String
  encrypted : Bool
  aes : Bool
  method : Nat
  checksum : Nat
  size : Nat
  compressed : Nat
  place : Nat

namespace Item

/-- The method of an entry that has its real one in an extra field. -/
def aesMethod : Nat := 99

/-- The number that stands for one in an extra field. -/
def elsewhere : Nat := 0xFFFFFFFF

/-- Why extra fields are not read to their end. -/
inductive Stop where
  | ended
  | wrong
deriving DecidableEq, Repr

/-- An entry and the bytes of its extra fields that are not read yet. -/
structure State where
  item : Item
  rest : List UInt8

/-- A step of reading extra fields.  What it read before it stopped is kept. -/
abbrev Reader := EStateM Stop State

/-- The next `n` bytes. -/
def bytes (n : Nat) : Reader (List UInt8) := do
  let s ← get
  let front := s.rest.take n
  if front.length < n then throw .ended
  set { s with rest := s.rest.drop n }
  return front

/-- The number that the next `n` bytes write, the lowest first. -/
def number (n : Nat) : Reader Nat :=
  return (← bytes n).foldr (fun b m => b.toNat + 0x100 * m) 0

/-- Change the entry. -/
def change (f : Item → Item) : Reader Unit :=
  modify fun s => { s with item := f s.item }

/-- Stop unless a condition holds. -/
def check (condition : Bool) : Reader Unit :=
  if condition then pure () else throw .wrong

/-- The sizes and the place, as far as the entry leaves them to this field or the field
is long enough for all of them. -/
def readSizes (length : Nat) : Reader Unit := do
  let whole : Bool := 24 ≤ length
  let first := (← get).item
  if whole || first.size == elsewhere then
    let n ← number 8
    change fun e => { e with size := n }
  if whole || first.compressed == elsewhere then
    let n ← number 8
    change fun e => { e with compressed := n }
  if whole || first.place == elsewhere then
    let n ← number 8
    change fun e => { e with place := n }
  let used := 8 * ([first.size, first.compressed, first.place].countP fun n => whole || n == elsewhere)
  check (used ≤ length)
  let _ ← bytes (length - used)

/-- Times in units of 100 nanoseconds. -/
def readFineTimes (length : Nat) : Reader Unit := do
  check (length = 32)
  let _ ← bytes 4
  check ((← number 2) = 1)
  check ((← number 2) = 24)
  let _ ← bytes 24

/-- Times in seconds: as many as there are flags, or one. -/
def readTimes (length : Nat) : Reader Unit := do
  let flags ← number 1
  let times := (List.range 8).countP fun i => flags >>> i % 2 = 1
  check (length = 5 || length = 1 + 4 * times)
  check (flags < 8)
  let _ ← bytes (length - 1)

/-- The method of encrypted data. -/
def readAes (length : Nat) : Reader Unit := do
  check (length = 7)
  let version ← number 2
  let vendor ← number 2
  let strength ← number 1
  let method ← number 2
  check (vendor = 0x4541 && (version = 1 || version = 2) && 1 ≤ strength && strength ≤ 3)
  change fun e => { e with method := method, aes := true }

/-- Text that replaces `replaced`. -/
def readText (length : Nat) (replaced : ByteArray) : Reader String := do
  let _ ← bytes 1
  let checksum ← number 4
  check (5 ≤ length)
  let content : ByteArray := ⟨(← bytes (length - 5)).toArray⟩
  check ((crc32 replaced).toNat = checksum)
  match String.fromUTF8? content with
  | some text => return text
  | none => throw .wrong

/-- One extra field. -/
def readField : Reader Unit := do
  let kind ← number 2
  let length ← number 2
  match kind with
  | 0x0001 => readSizes length
  | 0x000A => readFineTimes length
  | 0x5455 => readTimes length
  | 0x6375 =>
    let text ← readText length (← get).item.comment.toUTF8
    change fun e => { e with comment := text }
  | 0x7075 =>
    let text ← readText length (← get).item.rawName
    change fun e => { e with name := text, rawName := text.toUTF8 }
  | 0x9901 => readAes length
  | _ =>
    let _ ← bytes length

/-- At most `n` extra fields. -/
def readFields : (n : Nat) → Reader Unit
  | 0 => pure ()
  | n + 1 => do
    if !(← get).rest.isEmpty then
      readField
      readFields n

/-- The entry with what its extra fields say, unless they are wrong. -/
def withExtra? (e : Item) (extra : List UInt8) : Option Item :=
  match (readFields extra.length).run ⟨e, extra⟩ with
  | .ok _ s => some s.item
  | .error .ended s => some s.item
  | .error .wrong _ => none

/-- The entry at a place of the directory and the place behind it, in an archive that is
moved by `shift`. -/
def at? (data : ByteArray) (shift i : Nat) : Option (Item × Nat) := do
  if data.size < i + 46 || !isMark data 0x02014B50 i then none
  let extraStart := i + 46 + half data (i + 28)
  let commentStart := extraStart + half data (i + 30)
  let next := commentStart + half data (i + 32)
  if data.size < next then none
  let flags := half data (i + 8)
  let text (raw : ByteArray) : String :=
    if flags / 0x800 % 2 = 1 then Text.decode raw else String.ofList (raw.toList.map character)
  let rawName := data.extract (i + 46) extraStart
  let item : Item := {
    name := text rawName
    rawName := rawName
    comment := text (data.extract commentStart next)
    encrypted := flags % 2 = 1
    aes := false
    method := half data (i + 10)
    checksum := Gzip.word data (i + 16)
    size := Gzip.word data (i + 24)
    compressed := Gzip.word data (i + 20)
    place := Gzip.word data (i + 42) }
  let item ← item.withExtra? (data.extract extraStart commentStart).toList
  if item.method = aesMethod && !item.aes then none
  let place := item.place + shift
  if UInt64.size ≤ place then none
  some ({ item with place := place }, next)

/-- Whether the entry is a directory. -/
def isDirectory (e : Item) : Bool :=
  let last := e.name.toList.getLast?
  last == some '/' || last == some '\\'

end Item

end Zip
end Archive
end ReleaseLint
