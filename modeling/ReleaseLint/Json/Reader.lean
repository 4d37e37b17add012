/-
# Reading JSON

    value  := null | true | false | number | string | [ items ] | { members }
    number := - ? ( 0 | digit from 1 to 9, digits ) ( . digits ) ? ( e sign ? digits ) ?

White space is the space, tab, line feed and carriage return.  Each reader returns
what follows the piece that it read.
-/

import ReleaseLint.Json.Basic

namespace ReleaseLint
namespace Json

/-- Whether a character is white space in JSON. -/
def isSpace (c : Char) : Bool :=
  c == ' ' || c == '\t' || c == '\n' || c == '\r'

/-- A text without the white space in front. -/
def skipSpace (s : List Char) : List Char :=
  s.dropWhile isSpace

/-- The value of a hexadecimal digit. -/
def hexDigit? (c : Char) : Option Nat :=
  let n := c.toNat
  if 48 ≤ n && n ≤ 57 then some (n - 48)
  else if 97 ≤ n && n ≤ 102 then some (n - 87)
  else if 65 ≤ n && n ≤ 70 then some (n - 55)
  else none

/-- The value of four hexadecimal digits. -/
def hex4? (a b c d : Char) : Option Nat := do
  return (((← hexDigit? a) * 16 + (← hexDigit? b)) * 16 + (← hexDigit? c)) * 16 + (← hexDigit? d)

/-- A piece of a string: a character, or half of a surrogate pair. -/
inductive Piece where
  | char (c : Char)
  | high (n : Nat)
  | low (n : Nat)
deriving DecidableEq, Repr

/-- The piece with a number of 16 bits. -/
def Piece.ofUnit (n : Nat) : Piece :=
  if 0xD800 ≤ n && n ≤ 0xDBFF then .high n
  else if 0xDC00 ≤ n && n ≤ 0xDFFF then .low n
  else .char (Char.ofNat n)

/-- The text of a list of pieces, unless half of a surrogate pair stands alone. -/
def joinPieces : List Piece → Option (List Char)
  | [] => some []
  | .char c :: r => (joinPieces r).map (c :: ·)
  | .high h :: .low l :: r =>
    (joinPieces r).map (Char.ofNat (0x10000 + (h - 0xD800) * 0x400 + (l - 0xDC00)) :: ·)
  | _ => none

/-- What a letter behind a backslash stands for. -/
def escape? (c : Char) : Option Char :=
  match c with
  | '"' => some '"' | '\\' => some '\\' | '/' => some '/' | 'b' => some '\x08'
  | 'f' => some '\x0c' | 'n' => some '\n' | 'r' => some '\r' | 't' => some '\t'
  | _ => none

/-- The pieces of a string up to its closing quote. -/
def pieces? : List Char → Option (List Piece × List Char)
  | [] => none
  | '"' :: r => some ([], r)
  | '\\' :: 'u' :: a :: b :: c :: d :: r => do
    let n ← hex4? a b c d
    let (rest, r) ← pieces? r
    some (.ofUnit n :: rest, r)
  | '\\' :: e :: r => do
    let c ← escape? e
    let (rest, r) ← pieces? r
    some (.char c :: rest, r)
  | c :: r => do
    if c.toNat < 0x20 || c == '\\' then none
    else
      let (rest, r) ← pieces? r
      some (.char c :: rest, r)

/-- A string behind its opening quote. -/
def string? (s : List Char) : Option (Option String × List Char) :=
  (pieces? s).map fun (ps, r) => ((joinPieces ps).map String.ofList, r)

/-- The number that a list of decimal digits writes. -/
def digitsValue (s : List Char) : Nat :=
  s.foldl (fun n c => n * 10 + (c.toNat - 48)) 0

/-- Append digits to the integer `n` while it has 64 bits: what it becomes, and how many
digits are left over. -/
def appendDigits (n : Nat) : List Char → Nat × Nat
  | [] => (n, 0)
  | c :: r =>
    let m := n * 10 + (c.toNat - 48)
    if m < UInt64.size then appendDigits m r else (n, r.length + 1)

/-- The exponent of a number, if one follows. -/
def exponent? (s : List Char) : Option (Option Int × List Char) :=
  match s with
  | c :: r =>
    if c == 'e' || c == 'E' then
      let (negative, r) :=
        match r with
        | '-' :: r => (true, r)
        | '+' :: r => (false, r)
        | r => (false, r)
      let digits := r.takeWhile Char.isDigit
      if digits.isEmpty then none
      else
        -- any larger exponent decides already that the number is zero or too large
        let n := min (digitsValue digits) 2147483648
        some (some (if negative then -(n : Int) else n), r.dropWhile Char.isDigit)
    else some (none, s)
  | [] => some (none, s)

/-- The digits of a fraction, if one follows. -/
def fraction? (s : List Char) : Option (List Char × List Char) :=
  match s with
  | '.' :: r =>
    let digits := r.takeWhile Char.isDigit
    if digits.isEmpty then none else some (digits, r.dropWhile Char.isDigit)
  | r => some ([], r)

/-- A number. -/
def number? (s : List Char) : Option (Number × List Char) :=
  let (negative, s) :=
    match s with
    | '-' :: r => (true, r)
    | r => (false, r)
  let whole := s.takeWhile Char.isDigit
  if whole.isEmpty || (whole.head? == some '0' && whole.length > 1) then none
  else do
    let (fraction, s) ← fraction? (s.dropWhile Char.isDigit)
    let (e, s) ← exponent? s
    let (n, left) := appendDigits 0 whole
    let (n, unused) := appendDigits n fraction
    let scale : Int := (left : Int) - ((fraction.length - unused : Nat) : Int)
    some (⟨negative, n, e.getD 0 + scale, fraction.isEmpty && e.isNone⟩, s)

/-- The value of a word, and what follows the word. -/
def word? (s : List Char) : Option (Json × List Char) :=
  match s with
  | 'n' :: 'u' :: 'l' :: 'l' :: r => some (.null, r)
  | 't' :: 'r' :: 'u' :: 'e' :: r => some (.bool true, r)
  | 'f' :: 'a' :: 'l' :: 's' :: 'e' :: r => some (.bool false, r)
  | _ => none

mutual

/-- One value, of at most `n` levels. -/
def value? : (n : Nat) → List Char → Option (Json × List Char)
  | 0, _ => none
  | n + 1, s =>
    match skipSpace s with
    | '"' :: r => (string? r).map fun (t, r) => (.string t, r)
    | '[' :: r =>
      match skipSpace r with
      | ']' :: r => some (.array [], r)
      | r => (items? n r).map fun (items, r) => (.array items, r)
    | '\x7b' :: r =>
      match skipSpace r with
      | '\x7d' :: r => some (.object [], r)
      | r => (members? n r).map fun (members, r) => (.object members, r)
    | c :: r =>
      if c == '-' || c.isDigit then (number? (c :: r)).map fun (x, r) => (.number x, r)
      else word? (c :: r)
    | [] => none

/-- The items of an array up to its closing bracket. -/
def items? : (n : Nat) → List Char → Option (List Json × List Char)
  | 0, _ => none
  | n + 1, s => do
    let (item, s) ← value? n s
    match skipSpace s with
    | ',' :: r => do
      let (rest, r) ← items? n r
      some (item :: rest, r)
    | ']' :: r => some ([item], r)
    | _ => none

/-- The members of an object up to its closing brace. -/
def members? : (n : Nat) → List Char → Option (List (Option String × Json) × List Char)
  | 0, _ => none
  | n + 1, s =>
    match skipSpace s with
    | '"' :: r => do
      let (key, r) ← string? r
      match skipSpace r with
      | ':' :: r => do
        let (value, r) ← value? n r
        match skipSpace r with
        | ',' :: r => do
          let (rest, r) ← members? n r
          some ((key, value) :: rest, r)
        | '\x7d' :: r => some ([(key, value)], r)
        | _ => none
      | _ => none
    | _ => none

end

/-- The value that a list of characters writes, with white space around it. -/
def ofChars? (s : List Char) : Option Json :=
  match value? (s.length + 1) s with
  | some (j, r) => if (skipSpace r).isEmpty then some j else none
  | none => none

/-- The value that a text writes. -/
def ofText? (s : String) : Option Json :=
  ofChars? s.toList

end Json
end ReleaseLint
