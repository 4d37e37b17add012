/-
# SHA-256

The message is padded with a bit 1, zeros and its length in bits to blocks of 64
bytes.  Each block gives 64 words, and each word one round over eight variables.
-/

namespace ReleaseLint
namespace Sha256

/-- The round constants: the fractions of the cube roots of the first 64 primes. -/
def constants : Array UInt32 := #[
  0x428a2f98, 0x71374491, 0xb5c0fbcf, 0xe9b5dba5, 0x3956c25b, 0x59f111f1, 0x923f82a4, 0xab1c5ed5,
  0xd807aa98, 0x12835b01, 0x243185be, 0x550c7dc3, 0x72be5d74, 0x80deb1fe, 0x9bdc06a7, 0xc19bf174,
  0xe49b69c1, 0xefbe4786, 0x0fc19dc6, 0x240ca1cc, 0x2de92c6f, 0x4a7484aa, 0x5cb0a9dc, 0x76f988da,
  0x983e5152, 0xa831c66d, 0xb00327c8, 0xbf597fc7, 0xc6e00bf3, 0xd5a79147, 0x06ca6351, 0x14292967,
  0x27b70a85, 0x2e1b2138, 0x4d2c6dfc, 0x53380d13, 0x650a7354, 0x766a0abb, 0x81c2c92e, 0x92722c85,
  0xa2bfe8a1, 0xa81a664b, 0xc24b8b70, 0xc76c51a3, 0xd192e819, 0xd6990624, 0xf40e3585, 0x106aa070,
  0x19a4c116, 0x1e376c08, 0x2748774c, 0x34b0bcb5, 0x391c0cb3, 0x4ed8aa4a, 0x5b9cca4f, 0x682e6ff3,
  0x748f82ee, 0x78a5636f, 0x84c87814, 0x8cc70208, 0x90befffa, 0xa4506ceb, 0xbef9a3f7, 0xc67178f2]

/-- The eight variables. -/
structure Variables where
  a : UInt32
  b : UInt32
  c : UInt32
  d : UInt32
  e : UInt32
  f : UInt32
  g : UInt32
  h : UInt32

/-- The variables before the first block: the fractions of the square roots of the
first eight primes. -/
def start : Variables :=
  ⟨0x6a09e667, 0xbb67ae85, 0x3c6ef372, 0xa54ff53a, 0x510e527f, 0x9b05688c, 0x1f83d9ab, 0x5be0cd19⟩

/-- A word turned right by `n` bits. -/
def rotate (x : UInt32) (n : UInt32) : UInt32 :=
  (x >>> n) ||| (x <<< (32 - n))

/-- One round with the sum of a word and its constant. -/
def round (v : Variables) (x : UInt32) : Variables :=
  let s1 := rotate v.e 6 ^^^ rotate v.e 11 ^^^ rotate v.e 25
  let choice := (v.e &&& v.f) ^^^ (~~~v.e &&& v.g)
  let t1 := v.h + s1 + choice + x
  let s0 := rotate v.a 2 ^^^ rotate v.a 13 ^^^ rotate v.a 22
  let majority := (v.a &&& v.b) ^^^ (v.a &&& v.c) ^^^ (v.b &&& v.c)
  ⟨t1 + (s0 + majority), v.a, v.b, v.c, v.d + t1, v.e, v.f, v.g⟩

/-- The word that four bytes write, the highest first. -/
def word (a b c d : UInt8) : UInt32 :=
  (a.toUInt32 <<< 24) ||| (b.toUInt32 <<< 16) ||| (c.toUInt32 <<< 8) ||| d.toUInt32

/-- The word after the words `w`, of which there are at least sixteen. -/
def nextWord (w : Array UInt32) : UInt32 :=
  let back (k : Nat) := w.getD (w.size - k) 0
  let s0 := rotate (back 15) 7 ^^^ rotate (back 15) 18 ^^^ (back 15 >>> 3)
  let s1 := rotate (back 2) 17 ^^^ rotate (back 2) 19 ^^^ (back 2 >>> 10)
  back 16 + s0 + back 7 + s1

/-- The 64 words of the block at the byte `at`. -/
def schedule (data : ByteArray) (start : Nat) : Array UInt32 :=
  let byte (i : Nat) : UInt8 := data.data.getD (start + i) 0
  let first := (Array.range 16).map fun i =>
    word (byte (4 * i)) (byte (4 * i + 1)) (byte (4 * i + 2)) (byte (4 * i + 3))
  (List.range 48).foldl (fun w _ => w.push (nextWord w)) first

/-- The variables after a block. -/
def compress (v : Variables) (w : Array UInt32) : Variables :=
  let r := (List.range 64).foldl (fun r i => round r (constants.getD i 0 + w.getD i 0)) v
  ⟨v.a + r.a, v.b + r.b, v.c + r.c, v.d + r.d, v.e + r.e, v.f + r.f, v.g + r.g, v.h + r.h⟩

/-- The message with its padding. -/
def pad (data : ByteArray) : ByteArray :=
  let zeros := (119 - data.size % 64) % 64
  let length := 8 * data.size
  let tail := [(0x80 : UInt8)] ++ List.replicate zeros 0 ++
    (List.range 8).map fun (i : Nat) => UInt8.ofNat (length >>> (8 * (7 - i)))
  data ++ ⟨tail.toArray⟩

/-- The variables after all blocks. -/
def digest (data : ByteArray) : Variables :=
  let message := pad data
  (List.range (message.size / 64)).foldl (fun v i => compress v (schedule message (64 * i))) start

/-- The eight hexadecimal digits of a word. -/
def hexWord (x : UInt32) : List Char :=
  (List.range 8).map fun i => Nat.digitChar (x.toNat >>> (4 * (7 - i)) % 16)

/-- The digest of a message in 64 hexadecimal digits. -/
def hex (data : ByteArray) : String :=
  let v := digest data
  String.ofList ([v.a, v.b, v.c, v.d, v.e, v.f, v.g, v.h].flatMap hexWord)

end Sha256
end ReleaseLint
