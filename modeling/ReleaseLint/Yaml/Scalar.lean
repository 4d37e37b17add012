/-
# The text of a scalar

The three ways to write a scalar, each read from the place where it begins:

| style | line breaks inside | ends |
| --- | --- | --- |
| plain | folded | before `: `, ` #`, a flow indicator, a document mark or a line indented less |
| quoted | folded | at its quote |
| block | kept (`\|`) or folded (`>`) | at the first line indented less |

Folding writes one break between two lines as a space and `n + 1` breaks as `n`
line feeds.
-/

import ReleaseLint.Yaml.Cursor

namespace ReleaseLint
namespace Yaml

/-- White space between two words: the spaces before the first line break, that
break, and the breaks after it. -/
structure Gap where
  spaces : List Char
  first : List Char
  more : List Char
  broken : Bool

namespace Gap

/-- No white space. -/
def none : Gap := ⟨[], [], [], false⟩

/-- What the white space is folded to. -/
def fold (g : Gap) : List Char :=
  if g.broken then
    if g.first.head? = some '\n' then (if g.more.isEmpty then [' '] else g.more)
    else g.first ++ g.more
  else g.spaces

/-- Add a space or tab, which does not count after a line break. -/
def addSpace (g : Gap) (c : Char) : Gap :=
  if g.broken then g else { g with spaces := g.spaces ++ [c] }

/-- Add a line break. -/
def addBreak (g : Gap) (b : List Char) : Gap :=
  if g.broken then { g with more := g.more ++ b } else ⟨[], b, g.more, true⟩

/-- The white space from `c` on; after a line break, no tab may stand left of the
column `indent`.  At most `n` characters are read. -/
def read (indent : Nat) : (n : Nat) → Cursor → Gap → Except Fault (Gap × Cursor)
  | 0, c, g => .ok (g, c)
  | n + 1, c, g =>
    if isSpace c.peek then
      if g.broken && c.column < indent && c.peek == '\t' then .error .tabIndent
      else read indent n c.skip (g.addSpace c.peek)
    else if isBreak c.peek then
      let (b, c) := c.takeBreak
      read indent n c (g.addBreak b)
    else .ok (g, c)

end Gap

namespace Plain

/-- The longest word of a plain scalar that `s` begins with. -/
def word (flow : Bool) : List Char → Except Fault (List Char)
  | [] => .ok []
  | ch :: r =>
    let next := r.headD '\x00'
    if isGap ch then .ok []
    else if flow && ch == ':' && [',', '?', '[', ']', '\x7b', '\x7d'].contains next then
      .error (.misplaced "colons before a flow indicator")
    else if (ch == ':' && isGap next) || (flow && [',', '[', ']', '\x7b', '\x7d'].contains ch) then
      .ok []
    else (ch :: ·) <$> word flow r

/-- A plain scalar that goes on at `c` behind `text` and the white space `g`: its
text, whether a line break follows it, and the place behind it. -/
def read (flow : Bool) (indent : Nat) :
    (n : Nat) → Cursor → (text : List Char) → Gap → Except Fault (List Char × Bool × Cursor)
  | 0, _, _, _ => .error .tooLong
  | n + 1, c, text, g =>
    if c.atDocumentMark || c.peek == '#' then .ok (text, g.broken, c)
    else do
      let w ← word flow c.rest
      let c := c.skipMany w.length
      let (text, g) := if w.isEmpty then (text, g) else (text ++ g.fold ++ w, Gap.none)
      if isSpace c.peek || isBreak c.peek then
        let (g, c) ← Gap.read indent (c.rest.length + 1) c g
        if !flow && c.column < indent then .ok (text, g.broken, c)
        else read flow indent n c text g
      else .ok (text, g.broken, c)

end Plain

namespace Quoted

/-- What a letter after a backslash stands for, when it stands for one character. -/
def escape? (c : Char) : Option Char :=
  match c with
  | '0' => some '\x00' | 'a' => some '\x07' | 'b' => some '\x08' | 't' => some '\t'
  | '\t' => some '\t' | 'n' => some '\n' | 'v' => some '\x0b' | 'f' => some '\x0c'
  | 'r' => some '\r' | 'e' => some '\x1b' | ' ' => some ' ' | '"' => some '"'
  | '/' => some '/' | '\\' => some '\\' | 'N' => some '\u0085'
  | '_' => some '\u00a0' | 'L' => some '\u2028' | 'P' => some '\u2029'
  | _ => none

/-- How many hexadecimal digits follow a letter after a backslash. -/
def escapeDigits? (c : Char) : Option Nat :=
  match c with
  | 'x' => some 2
  | 'u' => some 4
  | 'U' => some 8
  | _ => none

/-- The value of a hexadecimal digit. -/
def hexDigit? (c : Char) : Option Nat :=
  let n := c.toNat
  if '0'.toNat ≤ n && n ≤ '9'.toNat then some (n - '0'.toNat)
  else if 'a'.toNat ≤ n && n ≤ 'f'.toNat then some (n - 'a'.toNat + 10)
  else if 'A'.toNat ≤ n && n ≤ 'F'.toNat then some (n - 'A'.toNat + 10)
  else none

/-- The value of a list of hexadecimal digits. -/
def hexValue? (s : List Char) : Option Nat :=
  s.foldlM (fun acc c => (hexDigit? c).map (acc * 16 + ·)) 0

/-- The character with a code point, when it is one. -/
def charOfCode? (n : Nat) : Option Char :=
  if (0xD800 ≤ n && n ≤ 0xDFFF) || 0x10FFFF < n then none else some (Char.ofNat n)

/-- The character that an escape at `c` stands for, and the place behind it. -/
def readEscape (c : Cursor) : Except Fault (Char × Cursor) :=
  match escape? (c.look 1) with
  | some ch => .ok (ch, c.skipMany 2)
  | none =>
    match escapeDigits? (c.look 1) with
    | none => .error .escape
    | some k =>
      let digits := (c.rest.drop 2).take k
      if digits.length < k then .error .escape
      else
        match (hexValue? digits).bind charOfCode? with
        | some ch => .ok (ch, c.skipMany (2 + k))
        | none => .error .escape

/-- The characters up to the next gap or the closing quote: their text, whether
they end in an escaped line break, and the place behind them. -/
def word (single : Bool) :
    (n : Nat) → Cursor → (text : List Char) → Except Fault (List Char × Bool × Cursor)
  | 0, _, _ => .error .tooLong
  | n + 1, c, text =>
    let ch := c.peek
    if isGap ch then .ok (text, false, c)
    else if single && ch == '\'' then
      if c.look 1 == '\'' then word single n (c.skipMany 2) (text ++ ['\''])
      else .ok (text, false, c)
    else if !single && ch == '"' then .ok (text, false, c)
    else if !single && ch == '\\' then
      if isBreak (c.look 1) then .ok (text, true, c.skip.skipBreak)
      else do
        let (ch, c) ← readEscape c
        word single n c (text ++ [ch])
    else word single n c.skip (text ++ [ch])

/-- A quoted scalar that goes on at `c` behind `text`: its text and the place
behind the closing quote. -/
def read (single : Bool) :
    (n : Nat) → Cursor → (text : List Char) → Except Fault (List Char × Cursor)
  | 0, _, _ => .error .tooLong
  | n + 1, c, text =>
    if c.atDocumentMark then .error .indicatorInText
    else if isEnd c.peek then .error .endInText
    else do
      let (w, broken, c) ← word single (c.rest.length + 1) c []
      let text := text ++ w
      if c.peek == (if single then '\'' else '"') then .ok (text, c.skip)
      else
        let (g, c) ← Gap.read 0 (c.rest.length + 1) c { Gap.none with broken }
        read single n c (text ++ g.fold)

end Quoted

namespace Block

/-- What a block scalar does with the line breaks at its end. -/
inductive Chomping where
  | strip
  | clip
  | keep
deriving DecidableEq, Repr

/-- The chomping that an indicator asks for. -/
def Chomping.ofChar? (c : Char) : Option Chomping :=
  if c == '+' then some .keep else if c == '-' then some .strip else none

/-- The indentation that a digit asks for; zero is refused. -/
def indentOfChar? (c : Char) : Except Fault (Option Nat) :=
  if c.isDigit then (if c == '0' then .error .blockHeader else .ok (some (c.toNat - '0'.toNat)))
  else .ok none

/-- The chomping and the indentation that the header of a block scalar asks for,
in either order, and the place behind the header's line. -/
def readHeader (c : Cursor) : Except Fault (Chomping × Nat × Cursor) := do
  let (chomping, indent, c) ←
    match Chomping.ofChar? c.peek with
    | some k =>
      match ← indentOfChar? c.skip.peek with
      | some d => pure (k, d, c.skipMany 2)
      | none => pure (k, 0, c.skip)
    | none =>
      match ← indentOfChar? c.peek with
      | some d =>
        match Chomping.ofChar? c.skip.peek with
        | some k => pure (k, d, c.skipMany 2)
        | none => pure (.clip, d, c.skip)
      | none => pure (.clip, 0, c)
  let c := c.skipWhile isSpace
  let c := if c.peek == '#' then c.skipWhile (!isBreakOrEnd ·) else c
  if isBreakOrEnd c.peek then pure (chomping, indent, c.skipBreak) else throw .blockHeader

/-- The line breaks before the next line with text, the widest indentation among
their lines, and the place of that line's text.  `indent` is zero while the
indentation of the scalar is not known. -/
def readBreaks (indent : Nat) :
    (n : Nat) → Cursor → (widest : Nat) → (breaks : List Char) →
      Except Fault (List Char × Nat × Cursor)
  | 0, _, _, _ => .error .tooLong
  | n + 1, c, widest, breaks =>
    let room := if indent = 0 then c.rest.length else indent - c.column
    let c := c.skipMany (c.rest.take room |>.takeWhile (· == ' ')).length
    let widest := max widest c.column
    if (indent = 0 || c.column < indent) && c.peek == '\t' then .error .tabIndent
    else if isBreak c.peek then
      let (b, c) := c.takeBreak
      readBreaks indent n c widest (breaks ++ b)
    else .ok (breaks, widest, c)

/-- The lines of a block scalar from `c` on.  `first` is the break behind the last
line read, `more` the breaks that follow it, and `wasIndented` says whether that
line began with a space or tab. -/
def readLines (literal : Bool) (indent : Nat) :
    (n : Nat) → Cursor → (text first more : List Char) → (wasIndented : Bool) →
      Except Fault (List Char × List Char × List Char × Cursor)
  | 0, _, _, _, _, _ => .error .tooLong
  | n + 1, c, text, first, more, wasIndented =>
    if c.column == indent && !isEnd c.peek then do
      let indented := isSpace c.peek
      let joint :=
        if !literal && first.head? = some '\n' && !wasIndented && !indented then
          (if more.isEmpty then [' '] else [])
        else first
      let (line, c) := c.takeWhile (!isBreakOrEnd ·)
      let (first, c) := c.takeBreak
      let (breaks, _, c) ← readBreaks indent (c.rest.length + 1) c 0 []
      readLines literal indent n c (text ++ joint ++ more ++ line) first breaks indented
    else .ok (text, first, more, c)

/-- A block scalar whose indicator stands at `c`, in a collection indented by
`parent`: its text and the place behind it. -/
def read (literal : Bool) (parent : Int) (c : Cursor) : Except Fault (List Char × Cursor) := do
  let (chomping, asked, c) ← readHeader c.skip
  let indent := if asked = 0 then 0 else (max parent 0).toNat + asked
  let (more, widest, c) ← readBreaks indent (c.rest.length + 1) c 0 []
  let indent := if indent = 0 then max widest (max (parent + 1) 1).toNat else indent
  let (text, first, more, c) ← readLines literal indent (c.rest.length + 1) c [] [] more false
  let text := if chomping = .strip then text else text ++ first
  pure (if chomping = .keep then text ++ more else text, c)

end Block
end Yaml
end ReleaseLint
