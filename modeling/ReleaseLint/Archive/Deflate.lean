/-
# Expanding deflated data

Blocks follow each other until one says that it is the last:

| kind | holds |
| --- | --- |
| 0 | a length, its complement and that many bytes |
| 1 | codes of fixed lengths |
| 2 | the lengths of its codes, then the codes |
| 3 | is refused |

A code stands for a byte, for the end of the block, or for a length and a distance
that repeat what was written before.
-/

import ReleaseLint.Archive.Bits

namespace ReleaseLint
namespace Archive

/-- A prefix code: no code at all, a single zero for the only symbol, or how many codes
have each length and the symbols in the order of their codes. -/
inductive Code where
  | none
  | lone (symbol : Nat)
  | full (counts symbols : Array Nat)
deriving Repr, Inhabited

namespace Code

/-- The longest code. -/
def maxLength : Nat := 15

/-- How many codes are missing to a complete set of those lengths; none, if there
are too many. -/
def slack? (counts : Array Nat) : Option Nat :=
  (List.range maxLength).foldlM (fun room i =>
    let used := counts.getD (i + 1) 0
    if used ≤ 2 * room then some (2 * room - used) else .none) 1

/-- The symbols with a code and the lengths of their codes, the shortest ones first. -/
def used (lengths : List Nat) : List (Nat × Nat) :=
  (List.range maxLength).flatMap fun l => lengths.zipIdx.filter fun p => p.1 = l + 1

/-- The code in which the symbol `i` has the length `lengths[i]`.  The lengths may leave no
code over, but a code with one symbol may lack its second half. -/
def ofLengths? (lengths : List Nat) : Option Code :=
  let counts := (Array.range (maxLength + 1)).map fun l => if l = 0 then 0 else lengths.count l
  match used lengths with
  | [] => some .none
  | [(1, symbol)] => some (.lone symbol)
  | used => if slack? counts = some 0 then some (.full counts (used.map (·.2)).toArray) else .none

/-- Whether a code has several symbols. -/
def isFull : Code → Bool
  | full .. => true
  | _ => false

/-- The next symbol of a code with several ones.  `first` is the first code of the length
under way, `index` the place of its symbol, and `code` the bits read. -/
def nextFrom (counts symbols : Array Nat) :
    (n length code first index : Nat) → Bits → Except Stop (Nat × Bits)
  | 0, _, _, _, _, _ => .error .corrupt
  | n + 1, length, code, first, index, b => do
    let (x, b) ← b.next
    let code := code + x
    let count := counts.getD length 0
    if code < first + count then
      match symbols[index + (code - first)]? with
      | some symbol => pure (symbol, b)
      | .none => throw Stop.corrupt
    else
      nextFrom counts symbols n (length + 1) (2 * code) (2 * (first + count)) (index + count) b

/-- The next symbol. -/
def next (c : Code) (b : Bits) : Except Stop (Nat × Bits) :=
  match c with
  | none => do
    let _ ← b.next
    throw Stop.corrupt
  | lone symbol => do
    let (x, b) ← b.next
    if x = 0 then pure (symbol, b) else throw Stop.corrupt
  | full counts symbols => nextFrom counts symbols maxLength 1 0 0 0 b

end Code

namespace Deflate

/-- The shortest lengths that the codes from 257 on stand for, and the bits that follow. -/
def lengthTable : Array (Nat × Nat) := #[
  (3, 0), (4, 0), (5, 0), (6, 0), (7, 0), (8, 0), (9, 0), (10, 0), (11, 1), (13, 1), (15, 1), (17, 1),
  (19, 2), (23, 2), (27, 2), (31, 2), (35, 3), (43, 3), (51, 3), (59, 3), (67, 4), (83, 4), (99, 4),
  (115, 4), (131, 5), (163, 5), (195, 5), (227, 5), (258, 0)]

/-- The shortest distances that the codes stand for, and the bits that follow. -/
def distanceTable : Array (Nat × Nat) := #[
  (1, 0), (2, 0), (3, 0), (4, 0), (5, 1), (7, 1), (9, 2), (13, 2), (17, 3), (25, 3), (33, 4), (49, 4),
  (65, 5), (97, 5), (129, 6), (193, 6), (257, 7), (385, 7), (513, 8), (769, 8), (1025, 9), (1537, 9),
  (2049, 10), (3073, 10), (4097, 11), (6145, 11), (8193, 12), (12289, 12), (16385, 13), (24577, 13)]

/-- The order in which the lengths of the code for lengths are written. -/
def lengthOrder : List Nat :=
  [16, 17, 18, 0, 8, 7, 9, 6, 10, 5, 11, 4, 12, 3, 13, 2, 14, 1, 15]

/-- The code of literals and lengths in blocks of fixed codes. -/
def fixedLiterals : Code :=
  (Code.ofLengths? (List.replicate 144 8 ++ List.replicate 112 9 ++ List.replicate 24 7 ++
    List.replicate 8 8)).getD .none

/-- The code of distances in blocks of fixed codes. -/
def fixedDistances : Code :=
  (Code.ofLengths? (List.replicate 32 5)).getD .none

/-- The byte `distance` back from the end of `out`; what stands before its start is zero. -/
def byteBack (distance : Nat) (out : ByteArray) : UInt8 :=
  if distance ≤ out.size then out.data.getD (out.size - distance) 0 else 0

/-- Write `n` bytes again that stand `distance` back. -/
def repeatBack (distance : Nat) : (n : Nat) → ByteArray → ByteArray
  | 0, out => out
  | n + 1, out => repeatBack distance n (out.push (byteBack distance out))

/-- The number that a symbol of a table stands for. -/
def tableValue (table : Array (Nat × Nat)) (symbol : Nat) (b : Bits) : Except Stop (Nat × Bits) :=
  match table[symbol]? with
  | none => .error .corrupt
  | some (base, extra) => do
    let (x, b) ← b.take extra
    pure (base + x, b)

/-- What a symbol of a block does: write a byte, end the block, or repeat. -/
inductive Step where
  | byte (x : UInt8)
  | finish
  | copy (length distance : Nat)

/-- The next step of a block. -/
def step (literals distances : Code) (b : Bits) : Except Stop (Step × Bits) := do
  let (symbol, b) ← literals.next b
  if symbol < 256 then pure (.byte (UInt8.ofNat symbol), b)
  else if symbol = 256 then pure (.finish, b)
  else
    let (length, b) ← tableValue lengthTable (symbol - 257) b
    let (symbol, b) ← distances.next b
    let (distance, b) ← tableValue distanceTable symbol b
    pure (.copy length distance, b)

/-- What was written, and the bits behind it unless it stopped early. -/
abbrev Written := ByteArray × Except Stop Bits

/-- The symbols of a block up to its end. -/
def symbols (literals distances : Code) : (n : Nat) → Bits → ByteArray → Written
  | 0, _, out => (out, .error .corrupt)
  | n + 1, b, out =>
    match step literals distances b with
    | .error e => (out, .error e)
    | .ok (.byte x, b) => symbols literals distances n b (out.push x)
    | .ok (.finish, b) => (out, .ok b)
    | .ok (.copy length distance, b) =>
      symbols literals distances n b (repeatBack distance length out)

/-- A block of plain bytes. -/
def stored (b : Bits) (out : ByteArray) : Written :=
  let header : Except Stop (Nat × Bits) := do
    let (length, b) ← b.align.take 16
    let (complement, b) ← b.take 16
    if length + complement ≠ 0xFFFF then throw Stop.corrupt
    pure (length, b)
  match header with
  | .error e => (out, .error e)
  | .ok (length, b) =>
    let out := out ++ b.data.extract b.byte (b.byte + length)
    if b.data.size < b.byte + length then (out, .error .truncated)
    else (out, .ok { b with byte := b.byte + length })

/-- At most `n` steps of reading `total` code lengths, of which `done` are read. -/
def codeLengths (code : Code) (total : Nat) : (n : Nat) → (done : List Nat) → Bits →
    Except Stop (List Nat × Bits)
  | 0, _, _ => .error .corrupt
  | n + 1, done, b =>
    if total = done.length then .ok (done.reverse, b)
    else if total < done.length then .error .corrupt
    else do
      let (symbol, b) ← code.next b
      if symbol < 16 then codeLengths code total n (symbol :: done) b
      else if symbol = 16 then
        match done with
        | [] => throw Stop.corrupt
        | last :: _ =>
          let (x, b) ← b.take 2
          codeLengths code total n (List.replicate (3 + x) last ++ done) b
      else if symbol = 17 then
        let (x, b) ← b.take 3
        codeLengths code total n (List.replicate (3 + x) 0 ++ done) b
      else
        let (x, b) ← b.take 7
        codeLengths code total n (List.replicate (11 + x) 0 ++ done) b

/-- The lengths of the code for lengths, in the order of the symbols. -/
def orderedLengths (written : List Nat) : List Nat :=
  (List.range 19).map fun symbol =>
    ((lengthOrder.zip written).find? (·.1 == symbol)).map (·.2) |>.getD 0

/-- The next `n` numbers of three bits. -/
def smallNumbers : (n : Nat) → Bits → Except Stop (List Nat × Bits)
  | 0, b => .ok ([], b)
  | n + 1, b => do
    let (x, b) ← b.take 3
    let (rest, b) ← smallNumbers n b
    pure (x :: rest, b)

/-- The code with these lengths. -/
def codeOf (lengths : List Nat) : Except Stop Code :=
  ((Code.ofLengths? lengths).map .ok).getD (.error .corrupt)

/-- The two codes of a block that brings its own. -/
def ownCodes (b : Bits) : Except Stop (Code × Code × Bits) := do
  let (literals, b) ← b.take 5
  let (distances, b) ← b.take 5
  let (written, b) ← b.take 4
  if literals + 257 > 286 || distances + 1 > 30 then throw Stop.corrupt
  let (lengths, b) ← smallNumbers (written + 4) b
  let code ← codeOf (orderedLengths lengths)
  if !code.isFull then throw Stop.corrupt
  let total := literals + 257 + (distances + 1)
  let (lengths, b) ← codeLengths code total (total + 1) [] b
  let literalCode ← codeOf (lengths.take (literals + 257))
  let distanceCode ← codeOf (lengths.drop (literals + 257))
  pure (literalCode, distanceCode, b)

/-- One block: what is written behind it, and whether it is the last. -/
def block (size : Nat) (b : Bits) (out : ByteArray) : Bool × Written :=
  let header : Except Stop (Nat × Nat × Bits) := do
    let (last, b) ← b.take 1
    let (kind, b) ← b.take 2
    pure (last, kind, b)
  match header with
  | .error e => (true, out, .error e)
  | .ok (last, kind, b) =>
    (last == 1,
      if kind = 0 then stored b out
      else if kind = 1 then symbols fixedLiterals fixedDistances size b out
      else if kind = 2 then
        match ownCodes b with
        | .error e => (out, .error e)
        | .ok (literals, distances, b) => symbols literals distances size b out
      else (out, .error .corrupt))

/-- At most `n` blocks. -/
def blocks (size : Nat) : (n : Nat) → Bits → ByteArray → Written
  | 0, _, out => (out, .error .corrupt)
  | n + 1, b, out =>
    match block size b out with
    | (_, out, .error e) => (out, .error e)
    | (true, out, .ok b) => (out, .ok b)
    | (false, out, .ok b) => blocks size n b out

/-- The data deflated from the byte `start` on, and the first byte behind it unless
it stops early. -/
def expand (data : ByteArray) (start : Nat) : ByteArray × Except Stop Nat :=
  let size := 8 * data.size + 1
  let (out, rest) := blocks size size (Bits.start data start) ByteArray.empty
  (out, rest.map fun b => b.align.byte)

end Deflate

/-- The remainder that checks data, of 32 bits. -/
def crc32 (data : ByteArray) : UInt32 :=
  ~~~data.data.foldl (fun crc byte =>
    (List.range 8).foldl (fun c _ =>
      if c &&& 1 = 1 then (c >>> 1) ^^^ 0xEDB88320 else c >>> 1) (crc ^^^ byte.toUInt32)) 0xFFFFFFFF

end Archive
end ReleaseLint
