/-
# Reading records from JSON

A record with named fields is written as an object, in which unknown keys do not
count and a known key comes once, or as an array of the fields in their order, in
which the last ones may be missing.
-/

import ReleaseLint.Json.Reader

namespace ReleaseLint
namespace Json

/-- Why a text holds no record of the kind asked for. -/
inductive Fault where
  | syntaxError
  | unexpected (wanted : String)
  | missing (field : String)
  | repeated (field : String)
deriving DecidableEq, Repr, Inhabited

/-- The wording of a fault. -/
def Fault.message : Fault → String
  | syntaxError => "expected value"
  | unexpected wanted => s!"invalid type, expected {wanted}"
  | missing field => s!"missing field {field}"
  | repeated field => s!"duplicate field {field}"

/-- The values of the members with a key. -/
def valuesOf (key : String) (members : List (Option String × Json)) : List Json :=
  (members.filter fun m => m.1 == some key).map (·.2)

/-- The values of the fields `names` of a record; `none` for a missing one. -/
def fields (names : List String) : Json → Except Fault (List (Option Json))
  | object members =>
    if members.any (·.1.isNone) then .error .syntaxError
    else
      names.mapM fun name =>
        match valuesOf name members with
        | [] => .ok none
        | [v] => .ok (some v)
        | _ => .error (.repeated name)
  | array items =>
    if names.length < items.length then .error .syntaxError
    else .ok ((List.range names.length).map fun i => items[i]?)
  | _ => .error (.unexpected "a record")

/-- A text. -/
def asText : Json → Except Fault String
  | string (some s) => .ok s
  | string none => .error .syntaxError
  | _ => .error (.unexpected "a string")

/-- A boolean. -/
def asBool : Json → Except Fault Bool
  | bool b => .ok b
  | _ => .error (.unexpected "a boolean")

/-- An unsigned integer of 64 bits. -/
def asUnsigned : Json → Except Fault Nat
  | number n => (n.unsigned?.map .ok).getD (.error (.unexpected "u64"))
  | _ => .error (.unexpected "u64")

/-- A signed integer of 64 bits. -/
def asSigned : Json → Except Fault Int
  | number n => (n.signed?.map .ok).getD (.error (.unexpected "i64"))
  | _ => .error (.unexpected "i64")

/-- A list of records. -/
def asList {α : Type} (item : Json → Except Fault α) : Json → Except Fault (List α)
  | array items => items.mapM item
  | _ => .error (.unexpected "a sequence")

/-- A list of records; null stands for the empty one. -/
def asListOrNull {α : Type} (item : Json → Except Fault α) : Json → Except Fault (List α)
  | null => .ok []
  | j => asList item j

/-- A field that has a default when it is missing. -/
def orDefault {α : Type} (default : α) (read : Json → Except Fault α) :
    Option Json → Except Fault α
  | none => .ok default
  | some j => read j

/-- Why a text holds no record of the kind asked for, and where the text ends. -/
structure Misfit where
  fault : Fault
  line : Nat
  column : Nat
deriving DecidableEq, Repr, Inhabited

/-- The wording of a misfit. -/
def Misfit.message (m : Misfit) : String :=
  s!"{m.fault.message}, in text up to its end at line {m.line} column {m.column}"

/-- The misfit of a text. -/
def Misfit.ofText (fault : Fault) (s : String) : Misfit where
  fault := fault
  line := s.toList.count '\n' + 1
  column := (s.toList.reverse.takeWhile (· != '\n')).length

/-- The record that a text writes. -/
def decode {α : Type} (read : Json → Except Fault α) (s : String) : Except Misfit α :=
  match (ofText? s).elim (.error .syntaxError) read with
  | .ok a => .ok a
  | .error fault => .error (.ofText fault s)

end Json
end ReleaseLint
