/-
# Texts that write a value

Which texts write a JSON value, said without a reader.  A text may have white space around
every piece, and write each character of a string as itself or as one of its escapes.

    value   := null | true | false | - ? digits | " characters " | [ items ] | { members }
    items   := ( value ( , value )* ) ?            with white space around each value
    members := ( key : value ( , key : value )* ) ?

| a character | may be written as |
| --- | --- |
| from U+0020 on, no quote and no backslash | itself |
| one of eight | a backslash and a letter |
| below U+10000 | a backslash, `u` and four hexadecimal digits |
| from U+10000 on | two such escapes, the halves of a surrogate pair |

Numbers are integers of 64 bits with a sign beside them; the reports of linters hold no others.
-/

import ReleaseLint.Json.Basic

namespace ReleaseLint
namespace Json

/-- Whether there is nothing but white space. -/
def AreSpaces (s : List Char) : Prop :=
  ∀ c ∈ s, c = ' ' ∨ c = '\t' ∨ c = '\n' ∨ c = '\r'

/-- Whether a character is the hexadecimal digit of a number, in either case of letters. -/
def IsHexDigit (n : Nat) (c : Char) : Prop :=
  n < 16 ∧ (c = Nat.digitChar n ∨ c = (Nat.digitChar n).toUpper)

/-- Whether characters are the four hexadecimal digits of a number. -/
inductive WritesUnit : Nat → List Char → Prop
  | digits {p q r s a b c d} (ha : IsHexDigit p a) (hb : IsHexDigit q b) (hc : IsHexDigit r c)
      (hd : IsHexDigit s d) : WritesUnit (((p * 16 + q) * 16 + r) * 16 + s) [a, b, c, d]

/-- The letters that may stand behind a backslash, with the characters that they write. -/
def shortEscapes : List (Char × Char) :=
  [('"', '"'), ('\\', '\\'), ('/', '/'), ('b', '\x08'), ('f', '\x0c'), ('n', '\n'), ('r', '\r'),
    ('t', '\t')]

/-- Whether a stretch of a string literal writes a character. -/
inductive WritesChar : Char → List Char → Prop
  | plain {c} (hlow : 0x20 ≤ c.toNat) (hquote : c ≠ '"') (hback : c ≠ '\\') : WritesChar c [c]
  | short {c e} (h : (e, c) ∈ shortEscapes) : WritesChar c ['\\', e]
  | unit {c u} (h : WritesUnit c.toNat u) : WritesChar c ('\\' :: 'u' :: u)
  | pair {c u v high low} (hu : WritesUnit high u) (hv : WritesUnit low v)
      (hhigh : 0xD800 ≤ high ∧ high ≤ 0xDBFF) (hlow : 0xDC00 ≤ low ∧ low ≤ 0xDFFF)
      (hc : c.toNat = 0x10000 + (high - 0xD800) * 0x400 + (low - 0xDC00)) :
      WritesChar c ('\\' :: 'u' :: u ++ '\\' :: 'u' :: v)

/-- Whether the inside of a string literal writes some characters. -/
inductive WritesChars : List Char → List Char → Prop
  | nil : WritesChars [] []
  | cons {c s t u} (hc : WritesChar c t) (hs : WritesChars s u) : WritesChars (c :: s) (t ++ u)

/-- The digits of an integer, behind its sign. -/
def integerChars (negative : Bool) (n : Nat) : List Char :=
  (if negative then ['-'] else []) ++ Nat.toDigits 10 n

mutual

/-- Whether a text writes a value. -/
inductive Writes : Json → List Char → Prop
  | null : Writes .null ['n', 'u', 'l', 'l']
  | true : Writes (.bool true) ['t', 'r', 'u', 'e']
  | false : Writes (.bool false) ['f', 'a', 'l', 's', 'e']
  | integer {negative n} (h : n < UInt64.size) :
      Writes (.number ⟨negative, n, 0, Bool.true⟩) (integerChars negative n)
  | string {s t} (h : WritesChars s.toList t) : Writes (.string (some s)) ('"' :: t ++ ['"'])
  | array {items t} (h : WritesItems items t) : Writes (.array items) ('[' :: t ++ [']'])
  | object {members t} (h : WritesMembers members t) :
      Writes (.object members) ('\x7b' :: t ++ ['\x7d'])

/-- Whether a text writes the items of an array. -/
inductive WritesItems : List Json → List Char → Prop
  | nil {a} (ha : AreSpaces a) : WritesItems [] a
  | one {item a t b} (ha : AreSpaces a) (ht : Writes item t) (hb : AreSpaces b) :
      WritesItems [item] (a ++ (t ++ b))
  | cons {item next items a t b u} (ha : AreSpaces a) (ht : Writes item t) (hb : AreSpaces b)
      (hu : WritesItems (next :: items) u) :
      WritesItems (item :: next :: items) (a ++ (t ++ (b ++ ',' :: u)))

/-- Whether a text writes a member of an object. -/
inductive WritesMember : Option String × Json → List Char → Prop
  | member {key value a k b c t d} (ha : AreSpaces a) (hk : WritesChars key.toList k)
      (hb : AreSpaces b) (hc : AreSpaces c) (ht : Writes value t) (hd : AreSpaces d) :
      WritesMember (some key, value) (a ++ '"' :: (k ++ '"' :: (b ++ ':' :: (c ++ (t ++ d)))))

/-- Whether a text writes the members of an object. -/
inductive WritesMembers : List (Option String × Json) → List Char → Prop
  | nil {a} (ha : AreSpaces a) : WritesMembers [] a
  | one {m t} (ht : WritesMember m t) : WritesMembers [m] t
  | cons {m next members t u} (ht : WritesMember m t) (hu : WritesMembers (next :: members) u) :
      WritesMembers (m :: next :: members) (t ++ ',' :: u)

end

end Json
end ReleaseLint
