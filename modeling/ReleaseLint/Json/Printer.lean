/-
# Printing JSON

Values over several lines: two spaces for each level, one item or member a line,
and empty collections on one line.  In a string the quote, the backslash and the
characters below U+0020 are escaped, and all others stand for themselves.
-/

import ReleaseLint.Json.Basic

namespace ReleaseLint
namespace Json

/-- The characters that write `c` inside a string. -/
def escapeChar (c : Char) : List Char :=
  if c = '"' then ['\\', '"']
  else if c = '\\' then ['\\', '\\']
  else if c = '\n' then ['\\', 'n']
  else if c = '\r' then ['\\', 'r']
  else if c = '\t' then ['\\', 't']
  else if c.toNat = 8 then ['\\', 'b']
  else if c.toNat = 12 then ['\\', 'f']
  else if c.toNat < 0x10 then ['\\', 'u', '0', '0', '0', Nat.digitChar c.toNat]
  else if c.toNat < 0x20 then ['\\', 'u', '0', '0', '1', Nat.digitChar (c.toNat - 16)]
  else [c]

/-- A string between quotes. -/
def quote (s : String) : List Char :=
  ['"'] ++ s.toList.flatMap escapeChar ++ ['"']

/-- A string between quotes; half of a surrogate pair stands for one without text. -/
def quote? (s : Option String) : List Char :=
  match s with
  | some s => quote s
  | none => "\"\\ud800\"".toList

/-- The text of a number. -/
def Number.chars (n : Number) : List Char :=
  (if n.negative then ['-'] else []) ++ Nat.toDigits 10 n.digits ++
    (if n.isInteger then [] else 'e' :: (toString n.exponent).toList)

/-- A line feed and the spaces of a level. -/
def newline (level : Nat) : List Char :=
  '\n' :: List.replicate (2 * level) ' '

/-- A comma, unless nothing follows. -/
def comma {α : Type} (rest : List α) : List Char :=
  if rest.isEmpty then [] else [',']

mutual

/-- The text of a value that stands at a level. -/
def chars (level : Nat) : Json → List Char
  | null => "null".toList
  | bool b => (if b then "true" else "false").toList
  | number n => n.chars
  | string s => quote? s
  | array items =>
    if items.isEmpty then ['[', ']']
    else '[' :: itemChars (level + 1) items ++ newline level ++ [']']
  | object members =>
    if members.isEmpty then ['\x7b', '\x7d']
    else '\x7b' :: memberChars (level + 1) members ++ newline level ++ ['\x7d']

/-- The lines of the items of an array. -/
def itemChars (level : Nat) : List Json → List Char
  | [] => []
  | item :: r => newline level ++ chars level item ++ comma r ++ itemChars level r

/-- The lines of the members of an object. -/
def memberChars (level : Nat) : List (Option String × Json) → List Char
  | [] => []
  | (key, value) :: r =>
    newline level ++ quote? key ++ [':', ' '] ++ chars level value ++ comma r ++ memberChars level r

end

/-- The text of a value. -/
def pretty (j : Json) : String :=
  String.ofList (chars 0 j)

end Json
end ReleaseLint
