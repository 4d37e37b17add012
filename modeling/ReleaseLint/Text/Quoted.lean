/-
# Quoted text

A text between double quotes, as messages show paths, patterns and keys:

| character | written |
| --- | --- |
| double quote, backslash | with a backslash before it |
| line feed, carriage return, tab, NUL | as `\n`, `\r`, `\t`, `\0` |
| another one that is not printed | as `\u{…}` with its code point in hexadecimal |
| any other | as it is |
-/

import ReleaseLint.Text.Concealed

namespace ReleaseLint
namespace Text

/-- The characters that stand for `c` between quotes. -/
def quoteChar (c : Char) : List Char :=
  if c = '"' then ['\\', '"']
  else if c = '\\' then ['\\', '\\']
  else if c = '\n' then ['\\', 'n']
  else if c = '\r' then ['\\', 'r']
  else if c = '\t' then ['\\', 't']
  else if c.toNat = 0 then ['\\', '0']
  else if isConcealed c then ['\\', 'u', '\x7b'] ++ Nat.toDigits 16 c.toNat ++ ['\x7d']
  else [c]

/-- A text between double quotes. -/
def quoted (s : String) : String :=
  String.ofList (['"'] ++ s.toList.flatMap quoteChar ++ ['"'])

end Text
end ReleaseLint
