/-
# A place in a YAML text

What is left of the text, with the line and column of its first character.  Line
breaks are `\n`, `\r`, `\r\n`, U+0085, U+2028 and U+2029; the first four of them
are read as one `\n`.  The end of the text looks like the character NUL, which no
text holds (`Cursor.start?` refuses it).
-/

import ReleaseLint.Yaml.Fault

namespace ReleaseLint
namespace Yaml

/-- What is left of a text, and where it stands. -/
structure Cursor where
  rest : List Char
  index : Nat
  line : Nat
  column : Nat
deriving Repr, Inhabited

/-- Whether a character may stand in a YAML text. -/
def isAllowed (c : Char) : Bool :=
  let n := c.toNat
  n == 9 || n == 10 || n == 13 || (0x20 ≤ n && n ≤ 0x7E) || n == 0x85 ||
    (0xA0 ≤ n && n ≤ 0xFFFD) || 0x10000 ≤ n

/-- Whether a character ends a line. -/
def isBreak (c : Char) : Bool :=
  c == '\n' || c == '\r' || c.toNat == 0x85 || c.toNat == 0x2028 || c.toNat == 0x2029

/-- Whether a character is a space or a tab. -/
def isSpace (c : Char) : Bool :=
  c == ' ' || c == '\t'

/-- Whether the text ends here. -/
def isEnd (c : Char) : Bool :=
  c.toNat == 0

/-- Whether a line ends here. -/
def isBreakOrEnd (c : Char) : Bool :=
  isBreak c || isEnd c

/-- Whether a word ends here. -/
def isGap (c : Char) : Bool :=
  isSpace c || isBreakOrEnd c

/-- Whether a character may stand in the name of an anchor, a directive or a handle. -/
def isWordChar (c : Char) : Bool :=
  c.isAlphanum || c == '_' || c == '-'

namespace Cursor

/-- The first place of a text that holds only allowed characters. -/
def start? (s : String) : Except Fault Cursor :=
  if s.toList.all isAllowed then .ok ⟨s.toList, 0, 0, 0⟩ else .error .controlCharacter

/-- The character `k` places further on. -/
def look (c : Cursor) (k : Nat) : Char :=
  (c.rest.drop k).headD '\x00'

/-- The first character left. -/
def peek (c : Cursor) : Char :=
  c.rest.headD '\x00'

/-- The place behind one character of the same line. -/
def skip (c : Cursor) : Cursor :=
  match c.rest with
  | [] => c
  | _ :: r => ⟨r, c.index + 1, c.line, c.column + 1⟩

/-- The place behind `n` characters of the same line. -/
def skipMany (c : Cursor) (n : Nat) : Cursor :=
  let taken := (c.rest.take n).length
  ⟨c.rest.drop n, c.index + taken, c.line, c.column + taken⟩

/-- The place behind a line break, and the text that the break stands for. -/
def takeBreak (c : Cursor) : List Char × Cursor :=
  match c.rest with
  | '\r' :: '\n' :: r => (['\n'], ⟨r, c.index + 2, c.line + 1, 0⟩)
  | b :: r =>
    if isBreak b then
      (if b.toNat == 0x2028 || b.toNat == 0x2029 then [b] else ['\n'],
        ⟨r, c.index + 1, c.line + 1, 0⟩)
    else ([], c)
  | [] => ([], c)

/-- The place behind a line break. -/
def skipBreak (c : Cursor) : Cursor :=
  c.takeBreak.2

/-- The characters of this line that satisfy `p`, and the place behind them. -/
def takeWhile (c : Cursor) (p : Char → Bool) : List Char × Cursor :=
  let taken := c.rest.takeWhile p
  (taken, c.skipMany taken.length)

/-- The place behind the characters of this line that satisfy `p`. -/
def skipWhile (c : Cursor) (p : Char → Bool) : Cursor :=
  (c.takeWhile p).2

/-- Whether a line begins here with a mark of three characters `m` and a gap. -/
def atMark (c : Cursor) (m : Char) : Bool :=
  c.column == 0 && c.look 0 == m && c.look 1 == m && c.look 2 == m && isGap (c.look 3)

/-- Whether a line begins here with `---` or `...` and a gap. -/
def atDocumentMark (c : Cursor) : Bool :=
  c.atMark '-' || c.atMark '.'

end Cursor
end Yaml
end ReleaseLint
