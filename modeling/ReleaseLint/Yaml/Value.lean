/-
# The values of YAML documents

A node becomes a value by the core schema of YAML 1.2.  Only plain scalars are
looked at; a quoted or block scalar is a string.

| plain text | value |
| --- | --- |
| nothing, `~`, `null`, `Null`, `NULL` | null |
| `true`, `True`, `TRUE`, `false`, … | boolean |
| `-7`, `0x1F`, `0o17`, `0b11` | integer of 64 bits; a larger one is refused up to 128 bits |
| `017` | string |
| `1.5`, `1e3`, `.inf`, `.nan` | float, if it is finite or written as here |
| any other | string |

A tag that begins with `!` wraps the value.  Collections nest 128 deep at most, and
the aliases followed are at most a hundred times the events of the document.
-/

import ReleaseLint.Yaml.Node
import ReleaseLint.Decimal.Shortest

namespace ReleaseLint
namespace Yaml

/-- A number of a document. -/
inductive Number where
  | integer (n : Int)
  | float (x : Decimal.Binary64)
  | infinite (negative : Bool)
  | notANumber
deriving DecidableEq, Repr, Inhabited

namespace Number

/-- The text of a number. -/
def text : Number → String
  | integer n => toString n
  | float x => x.text
  | infinite negative => if negative then "-.inf" else ".inf"
  | notANumber => ".nan"

/-- Whether two numbers count as the same key: floats by value. -/
def same : Number → Number → Bool
  | integer a, integer b => a == b
  | float a, float b => a == b || (a.mantissa == 0 && b.mantissa == 0)
  | infinite a, infinite b => a == b
  | notANumber, notANumber => true
  | _, _ => false

end Number

/-- A value. -/
inductive Value where
  | null
  | bool (b : Bool)
  | number (n : Number)
  | string (s : String)
  | sequence (items : List Value)
  | mapping (entries : List (Value × Value))
  | tagged (tag : String) (value : Value)
deriving Repr, Inhabited

namespace Value

mutual

/-- Whether two values count as the same key.  The order of entries does not count. -/
def same : Value → Value → Bool
  | null, null => true
  | bool a, bool b => a == b
  | number a, number b => a.same b
  | string a, string b => a == b
  | sequence a, sequence b => sameItems a b
  | mapping a, mapping b => a.length == b.length && sameEntries a b
  | tagged s a, tagged t b => s == t && same a b
  | _, _ => false

/-- Whether two lists hold the same values in the same order. -/
def sameItems : List Value → List Value → Bool
  | [], [] => true
  | a :: r, b :: s => same a b && sameItems r s
  | _, _ => false

/-- Whether every entry of the first list has its like in the second. -/
def sameEntries : List (Value × Value) → List (Value × Value) → Bool
  | [], _ => true
  | (k, v) :: r, entries =>
    entries.any (fun e => same k e.1 && same v e.2) && sameEntries r entries

end

/-- The value below any tags. -/
def untagged : Value → Value
  | tagged _ v => v.untagged
  | v => v

/-- The entry of a mapping, with or without a tag, under a key that is a string. -/
def get? (v : Value) (key : String) : Option Value :=
  match v.untagged with
  | mapping entries =>
    (entries.find? fun e => match e.1 with | string s => s == key | _ => false).map (·.2)
  | _ => none

/-- The string that a value is, below any tags. -/
def string? (v : Value) : Option String :=
  match v.untagged with
  | string s => some s
  | _ => none

/-- The entries of the mapping that a value is, below any tags. -/
def mapping? (v : Value) : Option (List (Value × Value)) :=
  match v.untagged with
  | mapping entries => some entries
  | _ => none

end Value

namespace Plain

/-- The value of a digit in a base up to sixteen. -/
def digit? (base : Nat) (c : Char) : Option Nat :=
  (Quoted.hexDigit? c).filter (· < base)

/-- The number that a list of digits writes; there is none without digits. -/
def natural? (base : Nat) (s : List Char) : Option Nat :=
  if s.isEmpty then none else s.foldlM (fun n c => (digit? base c).map (n * base + ·)) 0

/-- The base that a text asks for and the digits that follow. -/
def based? : List Char → Option (Nat × List Char)
  | '0' :: 'x' :: r => some (16, r)
  | '0' :: 'o' :: r => some (8, r)
  | '0' :: 'b' :: r => some (2, r)
  | _ => none

/-- The sign in front of a text, and what follows it. -/
def sign? : List Char → Option Bool × List Char
  | '-' :: r => (some true, r)
  | '+' :: r => (some false, r)
  | s => (none, s)

/-- Digits with a zero in front: they are a string. -/
def isPadded (s : List Char) : Bool :=
  let digits := (sign? s).2
  digits.length > 1 && digits.head? == some '0' && digits.all Char.isDigit

/-- The integer that a text writes. -/
def integer? (s : List Char) : Option Int := do
  let (negative, digits) := sign? s
  let n ←
    match (based? digits).bind fun (base, r) => natural? base r with
    | some n => some n
    | none => if isPadded s then none else natural? 10 digits
  if negative = some true then some (-(n : Int)) else some n

/-- The part of a decimal behind its digits: an exponent, or nothing. -/
def exponent? : List Char → Option Int
  | [] => some 0
  | c :: r =>
    if c == 'e' || c == 'E' then
      let (negative, digits) := sign? r
      -- so many digits of an exponent decide already that the number is zero or too large
      (natural? 10 digits).map fun n =>
        let n := min n 100000
        if negative = some true then -(n : Int) else n
    else none

/-- The digits of a decimal and its power of ten. -/
def decimal? (s : List Char) : Option (Nat × Int) := do
  let whole := s.takeWhile Char.isDigit
  let rest := s.dropWhile Char.isDigit
  let (fraction, rest) :=
    match rest with
    | '.' :: r => (r.takeWhile Char.isDigit, r.dropWhile Char.isDigit)
    | r => ([], r)
  let digits ← natural? 10 (whole ++ fraction)
  let e ← exponent? rest
  some (digits, e - fraction.length)

/-- The float that a text writes. -/
def float? (s : List Char) : Option Number :=
  let (negative, body) := sign? s
  let text := String.ofList body
  if [".inf", ".Inf", ".INF"].contains text then some (.infinite (negative = some true))
  else if negative = none && [".nan", ".NaN", ".NAN"].contains text then some .notANumber
  else do
    let (digits, e) ← decimal? body
    let x ← Decimal.Binary64.ofDecimal (negative = some true) digits e
    some (.float x)

/-- The boolean that a text writes. -/
def bool? (s : String) : Option Bool :=
  if ["true", "True", "TRUE"].contains s then some true
  else if ["false", "False", "FALSE"].contains s then some false
  else none

/-- Whether a text writes null. -/
def isNull (s : String) : Bool :=
  ["~", "null", "Null", "NULL"].contains s

/-- Whether an integer fits into 64 bits, unsigned if it is not negative. -/
def fits64 (n : Int) : Bool :=
  -((UInt64.size / 2 : Nat) : Int) ≤ n && n < UInt64.size

/-- Whether an integer fits into 128 bits, unsigned if it is not negative. -/
def fits128 (n : Int) : Bool :=
  -((UInt64.size * UInt64.size / 2 : Nat) : Int) ≤ n &&
    n < (UInt64.size * UInt64.size : Nat)

/-- The value of an integer, when the text writes one of at most 128 bits. -/
def integerValue? (s : List Char) : Option (Except Fault Value) :=
  match integer? s with
  | some n =>
    if fits64 n then some (.ok (.number (.integer n)))
    else if fits128 n then some (.error .integerRange)
    else none
  | none => none

/-- The value of a plain scalar. -/
def value (s : String) : Except Fault Value :=
  if s = "" || isNull s then .ok .null
  else
    match bool? s with
    | some b => .ok (.bool b)
    | none =>
      match integerValue? s.toList with
      | some r => r
      | none =>
        match if isPadded s.toList then none else float? s.toList with
        | some x => .ok (.number x)
        | none => .ok (.string s)

end Plain

/-- The value of a scalar whose tag is no wrapper, or is already taken off. -/
def scalarValue (tag : Option Tag) (text : String) (plain : Bool) : Except Fault Value :=
  let unfit {α : Type} : Except Fault α := .error .badTagged
  match tag with
  | none => if plain then Plain.value text else .ok (.string text)
  | some t =>
    if t = .core "bool" then ((Plain.bool? text).map fun b => .ok (.bool b)).getD unfit
    else if t = .core "int" then (Plain.integerValue? text.toList).getD unfit
    else if t = .core "float" then
      ((Plain.float? text.toList).map fun x => .ok (.number x)).getD unfit
    else if t = .core "null" then (if Plain.isNull text then .ok .null else unfit)
    else if t.isLocal && plain then Plain.value text
    else .ok (.string text)

/-- Reading a document, with a count of the aliases followed. -/
abbrev Visit := StateT Nat (Except Fault)

namespace Document

/-- Follow an alias. -/
def follow (d : Document) : Node → Visit Node
  | .reference number => do
    let n ← get
    if d.events * 100 < n + 1 then throw Fault.tooManyAliases
    set (n + 1)
    match d.target? number with
    | some node => pure node
    | none => throw Fault.unknownAnchor
  | node => pure node

/-- Wrap a value into the tag of its node. -/
def wrap (tag : Option Tag) (v : Value) : Visit Value :=
  match tag.bind Tag.wrapper? with
  | some "" => throw Fault.badTagged
  | some name => pure (.tagged name v)
  | none => pure v

/-- Pair up the entries of a mapping; no key comes twice. -/
def distinctEntries : List (Value × Value) → List (Value × Value) → Except Fault (List (Value × Value))
  | done, [] => .ok done.reverse
  | done, (k, v) :: r =>
    if done.any fun e => e.1.same k then .error .duplicateKey else distinctEntries ((k, v) :: done) r

/-- The value of a node that may hold collections nested `depth` deep. -/
def value (d : Document) : (depth : Nat) → Node → Visit Value
  | depth, node => do
    match ← d.follow node with
    | .scalar tag text plain =>
      match tag.bind Tag.wrapper? with
      | some _ => wrap tag (← scalarValue none text plain)
      | none => scalarValue tag text plain
    | .sequence tag items =>
      match depth with
      | 0 => throw Fault.tooDeep
      | depth + 1 => wrap tag (.sequence (← items.mapM (value d depth)))
    | .mapping tag entries =>
      match depth with
      | 0 => throw Fault.tooDeep
      | depth + 1 =>
        let entries ← entries.mapM fun (k, v) => return (← value d depth k, ← value d depth v)
        wrap tag (.mapping (← distinctEntries [] entries))
    | .reference _ => throw Fault.unknownAnchor

/-- How deep collections may nest. -/
def maxDepth : Nat := 128

/-- The value of a document; one without a node is null. -/
def toValue (d : Document) : Except Fault Value :=
  match d.root with
  | none => .ok .null
  | some node => ((d.value maxDepth node).run 0).map (·.1)

end Document

/-- The values of the documents of a text up to the first fault, whether in the
text or in a value. -/
structure Values where
  values : List Value
  fault : Option Fault

/-- The values of the documents of a stream. -/
def Stream.toValues (s : Stream) : Values :=
  go s.documents
where
  /-- The values of the documents left. -/
  go : List Document → Values
    | [] => ⟨[], s.fault⟩
    | d :: r =>
      match d.toValue with
      | .error e => ⟨[], some e⟩
      | .ok v => let rest := go r; ⟨v :: rest.values, rest.fault⟩

/-- The values of the documents of a text. -/
def Values.ofText (s : String) : Values :=
  (Stream.ofText s).toValues

/-- The only document of a text. -/
def Document.only? (s : String) : Except Fault Document :=
  let stream := Stream.ofText s
  match stream.documents, stream.fault with
  | [d], none => .ok d
  | [], some e => .error e
  | _, _ => .error .severalDocuments

/-- The value of the only document of a text. -/
def Value.ofText (s : String) : Except Fault Value := do
  (← Document.only? s).toValue

end Yaml
end ReleaseLint
