/-
# The tokens of a YAML text

A text is cut into tokens from left to right.  Indentation outside brackets becomes
`blockEnd` tokens, and a word turns out to be a mapping key only when the colon
behind it is met: until then its place in the list of tokens is remembered as a
`KeyPlace`, and the `key` token is inserted there.

| token | written |
| --- | --- |
| `directive`, `tagDirective` | `%YAML 1.2`, `%TAG !e! tag:e.org,2024:` |
| `documentStart`, `documentEnd` | `---`, `...` |
| `sequenceStart`, `mappingStart`, `blockEnd` | the column of a block collection begins, ends |
| `entry`, `key`, `value` | `- `, `? ` or nothing, `: ` |
| `openBracket` … `comma` | `[`, `]`, `{`, `}`, `,` |
| `reference`, `anchor`, `tag`, `scalar` | `*a`, `&a`, `!t`, text |
-/

import ReleaseLint.Yaml.Tag

namespace ReleaseLint
namespace Yaml

/-- A token of a YAML text. -/
inductive Token where
  | directive (major minor : Nat)
  | tagDirective (handle : String) (leader : List UInt8)
  | documentStart
  | documentEnd
  | sequenceStart
  | mappingStart
  | blockEnd
  | entry
  | key
  | value
  | openBracket
  | closeBracket
  | openBrace
  | closeBrace
  | comma
  | reference (name : String)
  | anchor (name : String)
  | tag (handle : String) (suffix : List UInt8)
  | scalar (text : String) (plain : Bool)
deriving DecidableEq, Repr, Inhabited

/-- A place among the tokens where a key may turn out to begin. -/
structure KeyPlace where
  possible : Bool
  required : Bool
  token : Nat
  index : Nat
  line : Nat
  column : Nat

/-- No key begins here. -/
def KeyPlace.none : KeyPlace := ⟨false, false, 0, 0, 0, 0⟩

/-- A text cut up to the place `at`: the tokens so far, the columns of the open
block collections, the number of open brackets, whether a key may begin here, and
the key places of the open brackets, innermost first. -/
structure Cutter where
  place : Cursor
  tokens : Array Token
  indent : Int
  indents : List Int
  brackets : Nat
  keyAllowed : Bool
  keys : List KeyPlace

namespace Cutter

/-- A text of which nothing is cut. -/
def start (c : Cursor) : Cutter :=
  ⟨c, #[], -1, [], 0, true, [.none]⟩

/-- Add a token at the end. -/
def push (s : Cutter) (t : Token) : Cutter :=
  { s with tokens := s.tokens.push t }

/-- Insert a token before the token number `i`. -/
def insert (s : Cutter) (i : Nat) (t : Token) : Cutter :=
  { s with tokens := (s.tokens.extract 0 i).push t ++ s.tokens.extract i s.tokens.size }

/-- Go on behind `n` characters of the line. -/
def advance (s : Cutter) (n : Nat) : Cutter :=
  { s with place := s.place.skipMany n }

/-- The innermost key place. -/
def topKey (s : Cutter) : KeyPlace :=
  s.keys.headD .none

/-- Replace the innermost key place. -/
def setTopKey (s : Cutter) (k : KeyPlace) : Cutter :=
  { s with keys := k :: s.keys.tail }

/-- Give up the innermost key place; one that had to be a key is a fault. -/
def dropKey (s : Cutter) : Except Fault Cutter :=
  if s.topKey.possible && s.topKey.required then .error .missingColon
  else .ok (s.setTopKey { s.topKey with possible := false })

/-- Remember that a key may begin here.  A word in the column of the open block
collection has to be one. -/
def markKey (s : Cutter) : Except Fault Cutter :=
  if s.keyAllowed then do
    let s ← s.dropKey
    let c := s.place
    pure (s.setTopKey
      ⟨true, s.brackets == 0 && s.indent == (c.column : Int), s.tokens.size, c.index, c.line, c.column⟩)
  else .ok s

/-- Give up the key places that lie on an earlier line or more than 1024
characters back. -/
def dropStaleKeys (s : Cutter) : Except Fault Cutter := do
  let c := s.place
  let keys ← s.keys.mapM fun k =>
    if k.possible && (k.line < c.line || k.index + 1024 < c.index) then
      if k.required then throw Fault.missingColon else pure { k with possible := false }
    else pure k
  pure { s with keys }

/-- Open a block collection at `column` when it lies right of the open one; its
token goes before the token number `i`. -/
def openBlock (s : Cutter) (column i : Nat) (t : Token) : Cutter :=
  if s.brackets == 0 && s.indent < (column : Int) then
    { s.insert i t with indent := column, indents := s.indent :: s.indents }
  else s

/-- Close the block collections right of `column`. -/
def closeBlocks (s : Cutter) (column : Int) : Cutter :=
  if s.brackets == 0 then go s.indents s else s
where
  /-- Close them with the columns `indents` further out. -/
  go : List Int → Cutter → Cutter
    | [], s => s
    | outer :: indents, s =>
      if column < s.indent then go indents { s.push .blockEnd with indent := outer, indents }
      else s

/-- Skip white space, comments and line breaks.  A byte order mark in front of a line is
skipped like a space. -/
def skipGap : (n : Nat) → Cutter → Cutter
  | 0, s => s
  | n + 1, s =>
    let c := s.place
    let c := if c.column == 0 && c.peek == '\ufeff' then c.skip else c
    let c := c.skipWhile fun ch => ch == ' ' || (ch == '\t' && (s.brackets != 0 || !s.keyAllowed))
    let c := if c.peek == '#' then c.skipWhile (!isBreakOrEnd ·) else c
    if isBreak c.peek then
      skipGap n { s with place := c.skipBreak, keyAllowed := s.keyAllowed || s.brackets == 0 }
    else { s with place := c }

/-- The name of an anchor or alias behind its sign. -/
def anchorName (c : Cursor) : Except Fault (String × Cursor) :=
  let (name, c) := c.skip.takeWhile isWordChar
  let next := c.peek
  if name.isEmpty || !(isGap next || ['?', ':', ',', ']', '\x7d', '%', '@', '\x60'].contains next) then
    .error .anchorName
  else .ok (String.ofList name, c)

/-- Whether a character may stand in a tag; inside angle brackets, flow indicators may. -/
def isTagChar (verbatim : Bool) (c : Char) : Bool :=
  isWordChar c ||
    [';', '/', '?', ':', '@', '&', '=', '+', '$', '.', '%', '!', '~', '*', '\'', '(', ')'].contains c ||
    (verbatim && [',', '[', ']'].contains c)

/-- The bytes of a tag written from `c` on, and the place behind them. -/
def tagText (verbatim : Bool) (c : Cursor) : Except Fault (List UInt8 × Cursor) :=
  let (raw, c) := c.takeWhile (isTagChar verbatim)
  match Tag.unescape 0 raw with
  | some bytes => .ok (bytes, c)
  | none => .error .tagText

/-- A tag handle at `c`: `!`, `!name` or `!name!`. -/
def tagHandle (c : Cursor) : List Char × Cursor :=
  let (name, c) := c.skip.takeWhile isWordChar
  if c.peek == '!' then ('!' :: name ++ ['!'], c.skip) else ('!' :: name, c)

/-- The tag at `c`. -/
def readTag (s : Cutter) : Except Fault Cutter := do
  let c := s.place
  let (handle, suffix, c) ←
    if c.look 1 == '<' then do
      let (text, c) ← tagText true (c.skipMany 2)
      if text.isEmpty || c.peek != '>' then throw Fault.tagText
      pure ([], text, c.skip)
    else do
      let (handle, c) := tagHandle c
      let (text, c) ← tagText false c
      if handle.length > 1 && handle.getLast? == some '!' then
        if text.isEmpty then throw Fault.tagText
        pure (handle, text, c)
      else
        let suffix := (String.ofList (handle.drop 1)).toUTF8.toList ++ text
        pure (if (Tag.cut suffix).isEmpty then ([], [33], c) else (['!'], suffix, c))
  if (s.brackets == 0 || c.peek != ',') && !isGap c.peek then throw Fault.tagText
  pure { s.push (.tag (String.ofList handle) suffix) with place := c }

/-- A number of at most nine digits. -/
def versionNumber (c : Cursor) : Except Fault (Nat × Cursor) :=
  let (digits, c) := c.takeWhile Char.isDigit
  if digits.isEmpty || digits.length > 9 then .error .directive
  else .ok (digits.foldl (fun n d => n * 10 + (d.toNat - '0'.toNat)) 0, c)

/-- The directive at the place of `s`. -/
def readDirective (s : Cutter) : Except Fault Cutter := do
  let (name, c) := s.place.skip.takeWhile isWordChar
  if name.isEmpty || !isGap c.peek then throw Fault.directive
  let (token, c) ←
    if name = ['Y', 'A', 'M', 'L'] then do
      let (major, c) ← versionNumber (c.skipWhile isSpace)
      if c.peek != '.' then throw Fault.directive
      let (minor, c) ← versionNumber c.skip
      pure (Token.directive major minor, c)
    else if name = ['T', 'A', 'G'] then do
      let c := c.skipWhile isSpace
      if c.peek != '!' then throw Fault.directive
      let (handle, c) := tagHandle c
      if handle.length > 1 && handle.getLast? != some '!' then throw Fault.directive
      if !isSpace c.peek then throw Fault.directive
      let (leader, c) ← tagText true (c.skipWhile isSpace)
      if leader.isEmpty || !isGap c.peek then throw Fault.directive
      pure (Token.tagDirective (String.ofList handle) leader, c)
    else throw Fault.directive
  let c := c.skipWhile isSpace
  let c := if c.peek == '#' then c.skipWhile (!isBreakOrEnd ·) else c
  if !isBreakOrEnd c.peek then throw Fault.directive
  pure { s.push token with place := c.skipBreak }

/-- A token of `n` characters in front of which no key place survives. -/
def mark (s : Cutter) (t : Token) (n : Nat) (keyAllowed : Bool) : Except Fault Cutter := do
  let s ← s.dropKey
  pure { (s.push t).advance n with keyAllowed }

/-- The token of an opening bracket. -/
def openFlow (s : Cutter) (t : Token) : Except Fault Cutter := do
  let s ← s.markKey
  pure { (s.push t).advance 1 with
    keys := .none :: s.keys, brackets := s.brackets + 1, keyAllowed := true }

/-- The token of a closing bracket. -/
def closeFlow (s : Cutter) (t : Token) : Except Fault Cutter := do
  let s ← s.dropKey
  let keys := if s.brackets == 0 then s.keys else s.keys.tail
  pure { (s.push t).advance 1 with keys, brackets := s.brackets - 1, keyAllowed := false }

/-- The token of a dash, or of a question mark: it opens a block collection
outside brackets. -/
def openEntry (s : Cutter) (t collection : Token) (keyAllowed : Bool) : Except Fault Cutter := do
  if s.brackets == 0 && !s.keyAllowed then
    throw (Fault.misplaced (if t = .entry then "block sequence entries" else "mapping keys"))
  let s := s.openBlock s.place.column s.tokens.size collection
  s.mark t 1 keyAllowed

/-- The token of a colon.  The word at the innermost key place turns out to be a key. -/
def readValue (s : Cutter) : Except Fault Cutter := do
  let k := s.topKey
  let s ←
    if k.possible then
      let s := (s.insert k.token .key).openBlock k.column k.token .mappingStart
      pure { s.setTopKey { k with possible := false } with keyAllowed := false }
    else if s.brackets == 0 then
      if s.keyAllowed then
        let s := s.openBlock s.place.column s.tokens.size .mappingStart
        pure { s with keyAllowed := true }
      else throw (Fault.misplaced "mapping values")
    else pure { s with keyAllowed := false }
  pure ((s.push .value).advance 1)

/-- Whether a plain scalar begins at `c`. -/
def startsPlain (flow : Bool) (c : Cursor) : Bool :=
  let ch := c.peek
  !(isGap ch || ['-', '?', ':', ',', '[', ']', '\x7b', '\x7d', '#', '&', '*', '!', '|', '>', '\'', '"',
      '%', '@', '\x60'].contains ch) ||
    (ch == '-' && !isSpace (c.look 1)) ||
    (!flow && (ch == '?' || ch == ':') && !isGap (c.look 1))

/-- The scalar at the place of `s`, quoted or plain. -/
def readScalar (s : Cutter) : Except Fault Cutter := do
  let s ← s.markKey
  let c := s.place
  let n := c.rest.length + 2
  if c.peek == '\'' || c.peek == '"' then
    let (text, c) ← Quoted.read (c.peek == '\'') n c.skip []
    pure { s.push (.scalar (String.ofList text) false) with place := c, keyAllowed := false }
  else
    let (text, broken, c) ← Plain.read (s.brackets != 0) (s.indent + 1).toNat n c [] Gap.none
    pure { s.push (.scalar (String.ofList text) true) with place := c, keyAllowed := broken }

/-- The block scalar at the place of `s`. -/
def readBlock (s : Cutter) (literal : Bool) : Except Fault Cutter := do
  let s ← s.dropKey
  let (text, c) ← Block.read literal s.indent s.place
  pure { s.push (.scalar (String.ofList text) false) with place := c, keyAllowed := true }

/-- Close everything at the end of the text. -/
def finish (s : Cutter) : Except Fault Cutter :=
  (s.closeBlocks (-1)).dropKey

/-- Cut the next token, unless the text ends: `none` stands for its end. -/
def next (s : Cutter) : Except Fault (Cutter × Bool) := do
  let s ← (s.skipGap (s.place.rest.length + 1)).dropStaleKeys
  let s := s.closeBlocks s.place.column
  let c := s.place
  let ch := c.peek
  let flow := s.brackets != 0
  let more (r : Except Fault Cutter) : Except Fault (Cutter × Bool) := do pure (← r, true)
  if isEnd ch then do pure (← s.finish, false)
  else if c.column == 0 && ch == '%' then
    more do readDirective { ← (s.closeBlocks (-1)).dropKey with keyAllowed := false }
  else if c.atMark '-' then more ((s.closeBlocks (-1)).mark .documentStart 3 false)
  else if c.atMark '.' then more ((s.closeBlocks (-1)).mark .documentEnd 3 false)
  else if ch == '[' then more (s.openFlow .openBracket)
  else if ch == '\x7b' then more (s.openFlow .openBrace)
  else if ch == ']' then more (s.closeFlow .closeBracket)
  else if ch == '\x7d' then more (s.closeFlow .closeBrace)
  else if ch == ',' then more (s.mark .comma 1 true)
  else if ch == '-' && isGap (c.look 1) then more (s.openEntry .entry .sequenceStart true)
  else if ch == '?' && (flow || isGap (c.look 1)) then more (s.openEntry .key .mappingStart (!flow))
  else if ch == ':' && (flow || isGap (c.look 1)) then more s.readValue
  else if ch == '*' || ch == '&' then more do
    let s ← s.markKey
    let (name, c) ← anchorName c
    let t := if ch == '*' then Token.reference name else Token.anchor name
    pure { s.push t with place := c, keyAllowed := false }
  else if ch == '!' then more do
    let s ← s.markKey
    readTag { s with keyAllowed := false }
  else if (ch == '|' || ch == '>') && !flow then more (s.readBlock (ch == '|'))
  else if ch == '\'' || ch == '"' || startsPlain flow c then more s.readScalar
  else .error (.strayCharacter ch)

/-- Cut at most `n` more tokens. -/
def run : (n : Nat) → Cutter → Array Token × Option Fault
  | 0, s => (s.tokens, some .tooLong)
  | n + 1, s =>
    match s.next with
    | .error e => (s.tokens, some e)
    | .ok (s, true) => run n s
    | .ok (s, false) => (s.tokens, none)

end Cutter

/-- The tokens of a text, and the fault at which they stop. -/
def Token.ofText (s : String) : List Token × Option Fault :=
  match Cursor.start? s with
  | .error e => ([], some e)
  | .ok c =>
    let (tokens, fault) := Cutter.run (c.rest.length + 1) (Cutter.start c)
    (tokens.toList, fault)

end Yaml
end ReleaseLint
