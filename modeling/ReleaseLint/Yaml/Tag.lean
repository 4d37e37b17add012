/-
# YAML tags

A tag is a list of bytes: an escape stands for any bytes with the shape of a UTF-8
character, so a tag need not be a text.  It ends before its first zero.

| written | tag |
| --- | --- |
| `!a` | `!a` |
| `!!a` | `tag:yaml.org,2002:a` |
| `!<a>` | `a` |
| `!%61` | `!a` |
| `!a%00b` | `!a` |

A tag that begins with `!` wraps the value of its node, if the rest is a text.
-/

import ReleaseLint.Yaml.Scalar

namespace ReleaseLint
namespace Yaml

/-- The tag of a node. -/
structure Tag where
  bytes : List UInt8
deriving DecidableEq, Repr, Inhabited

namespace Tag

/-- The tag that a text is. -/
def ofString (s : String) : Tag :=
  ⟨s.toUTF8.toList⟩

/-- Bytes up to the first zero. -/
def cut (bytes : List UInt8) : List UInt8 :=
  bytes.takeWhile (· != 0)

/-- A tag written as a leader and a suffix. -/
def ofParts (leader suffix : List UInt8) : Tag :=
  ⟨cut leader ++ cut suffix⟩

/-- The tags of the core schema that say what a scalar is. -/
def core (name : String) : Tag :=
  ofString ("tag:yaml.org,2002:" ++ name)

/-- Whether a tag begins with an exclamation mark. -/
def isLocal (t : Tag) : Bool :=
  t.bytes.head? == some 33

/-- The name under which a tag wraps values: what follows one exclamation mark, or
two. -/
def wrapper? (t : Tag) : Option String :=
  match t.bytes with
  | [33] => some "!"
  | 33 :: r =>
    (String.fromUTF8? ⟨r.toArray⟩).map fun s =>
      match s.toList with
      | '!' :: c :: r => String.ofList (c :: r)
      | _ => s
  | _ => none

/-- How many bytes a character has whose first byte is `n`. -/
def width? (n : Nat) : Option Nat :=
  if n < 0x80 then some 1
  else if n < 0xC0 then none
  else if n < 0xE0 then some 2
  else if n < 0xF0 then some 3
  else if n < 0xF8 then some 4
  else none

/-- The bytes of a written tag, each `%` and its two hexadecimal digits replaced by a
byte.  Of the character that escapes write, `missing` bytes are still to come. -/
def unescape : (missing : Nat) → List Char → Option (List UInt8)
  | 0, [] => some []
  | missing, '%' :: a :: b :: r => do
    let n ← Quoted.hexValue? [a, b]
    let missing ←
      match missing with
      | 0 => (width? n).map (· - 1)
      | missing + 1 => if 0x80 ≤ n && n < 0xC0 then some missing else none
    return UInt8.ofNat n :: (← unescape missing r)
  | 0, c :: r => if c == '%' then none else do
    return (String.ofList [c]).toUTF8.toList ++ (← unescape 0 r)
  | _, _ => none

end Tag
end Yaml
end ReleaseLint
