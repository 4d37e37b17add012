/-
# Text from bytes

UTF-8 decoding that never fails: a maximal run of bytes that begins a character
without completing it becomes one U+FFFD, and decoding goes on behind it.

| first byte | second byte | further bytes |
| --- | --- | --- |
| `00`–`7F` | | |
| `C2`–`DF` | `80`–`BF` | |
| `E0` | `A0`–`BF` | 1 × `80`–`BF` |
| `E1`–`EC`, `EE`, `EF` | `80`–`BF` | 1 × `80`–`BF` |
| `ED` | `80`–`9F` | 1 × `80`–`BF` |
| `F0` | `90`–`BF` | 2 × `80`–`BF` |
| `F1`–`F3` | `80`–`BF` | 2 × `80`–`BF` |
| `F4` | `80`–`8F` | 2 × `80`–`BF` |
-/

namespace ReleaseLint
namespace Text

/-- What the first byte of a character says: the number of bytes that follow,
the range of the second one, and the bits it contributes. -/
def leadByte (b : Nat) : Option (Nat × (Nat × Nat) × Nat) :=
  if b < 0x80 then some (0, (0x80, 0xBF), b)
  else if 0xC2 ≤ b && b ≤ 0xDF then some (1, (0x80, 0xBF), b - 0xC0)
  else if b == 0xE0 then some (2, (0xA0, 0xBF), 0)
  else if b == 0xED then some (2, (0x80, 0x9F), 0xD)
  else if 0xE1 ≤ b && b ≤ 0xEF then some (2, (0x80, 0xBF), b - 0xE0)
  else if b == 0xF0 then some (3, (0x90, 0xBF), 0)
  else if 0xF1 ≤ b && b ≤ 0xF3 then some (3, (0x80, 0xBF), b - 0xF0)
  else if b == 0xF4 then some (3, (0x80, 0x8F), 4)
  else none

/-- The character that stands for bytes that are no text. -/
def replacement : Char := '\uFFFD'

/-- A character under way: how many of its bytes are missing, the range of the
next one, and the bits read so far. -/
structure Pending where
  missing : Nat
  range : Nat × Nat
  bits : Nat

/-- No character is under way. -/
def Pending.none : Pending := ⟨0, (0x80, 0xBF), 0⟩

/-- What the first byte of a character writes, and what it leaves under way. -/
def startChar (b : UInt8) : List Char × Pending :=
  match leadByte b.toNat with
  | .none => ([replacement], .none)
  | some (0, _, bits) => ([Char.ofNat bits], .none)
  | some (k + 1, range, bits) => ([], ⟨k + 1, range, bits⟩)

/-- What one more byte writes, and what it leaves under way: a byte that does
not go on with the character closes it with U+FFFD and begins the next one. -/
def Pending.push (p : Pending) (b : UInt8) : List Char × Pending :=
  let n := b.toNat
  match p.missing with
  | 0 => startChar b
  | k + 1 =>
    if p.range.1 ≤ n && n ≤ p.range.2 then
      let bits := p.bits * 64 + (n - 0x80)
      if k = 0 then ([Char.ofNat bits], .none) else ([], ⟨k, (0x80, 0xBF), bits⟩)
    else
      let (written, next) := startChar b
      (replacement :: written, next)

/-- The characters of a list of bytes, with `p` under way before them. -/
def decodeFrom (p : Pending) : List UInt8 → List Char
  | [] => if p.missing = 0 then [] else [replacement]
  | b :: r =>
    let (written, next) := p.push b
    written ++ decodeFrom next r

/-- The text that `data` encodes, with U+FFFD for what is no text. -/
def decode (data : ByteArray) : String :=
  match String.fromUTF8? data with
  | some s => s
  | none => String.ofList (decodeFrom .none data.toList)

end Text
end ReleaseLint
