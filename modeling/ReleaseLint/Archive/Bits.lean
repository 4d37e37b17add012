/-
# Bits of a compressed text

A list of bytes read bit by bit, the lowest bit of a byte first.
-/

namespace ReleaseLint
namespace Archive

/-- Why compressed data ends before its end. -/
inductive Stop where
  | truncated
  | corrupt
deriving DecidableEq, Repr, Inhabited

/-- What is left of a list of bytes: `bit` bits of the byte at `byte` are read. -/
structure Bits where
  data : ByteArray
  byte : Nat
  bit : Nat

namespace Bits

/-- All bits from a byte on. -/
def start (data : ByteArray) (byte : Nat) : Bits := ⟨data, byte, 0⟩

/-- The next bit. -/
def next (b : Bits) : Except Stop (Nat × Bits) :=
  if b.byte < b.data.size then
    let x := (b.data.data.getD b.byte 0).toNat >>> b.bit % 2
    .ok (x, if b.bit = 7 then { b with byte := b.byte + 1, bit := 0 } else { b with bit := b.bit + 1 })
  else .error .truncated

/-- The number that the next `n` bits write, the lowest first. -/
def take : (n : Nat) → Bits → Except Stop (Nat × Bits)
  | 0, b => .ok (0, b)
  | n + 1, b => do
    let (x, b) ← b.next
    let (rest, b) ← take n b
    pure (x + 2 * rest, b)

/-- The bits from the next whole byte on. -/
def align (b : Bits) : Bits :=
  if b.bit = 0 then b else { b with byte := b.byte + 1, bit := 0 }

end Bits
end Archive
end ReleaseLint
