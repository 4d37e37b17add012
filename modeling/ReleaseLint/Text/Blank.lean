/-
# White space and lines

The characters with the Unicode property `White_Space`, trimming by that
property, and the split of a text into lines and into fields.

| function | keeps |
| --- | --- |
| `trim` | the text between the first and the last character that is no blank |
| `lines` | the pieces between line feeds, each without one carriage return at its end |
| `fields` | the longest runs without a blank |
-/

namespace ReleaseLint
namespace Text

/-- The characters with the Unicode property `White_Space`. -/
def isBlank (c : Char) : Bool :=
  let n := c.toNat
  (9 ≤ n && n ≤ 13) || n == 0x20 || n == 0x85 || n == 0xA0 || n == 0x1680 ||
    (0x2000 ≤ n && n ≤ 0x200A) || n == 0x2028 || n == 0x2029 || n == 0x202F || n == 0x205F ||
    n == 0x3000

/-- Every character that core counts as white space is a blank. -/
theorem isBlank_of_isWhitespace {c : Char} (h : c.isWhitespace = true) : isBlank c = true := by
  simp only [Char.isWhitespace, Bool.or_eq_true, decide_eq_true_eq] at h
  rcases h with ((rfl | rfl) | rfl) | rfl <;> decide

/-- A text without its leading characters that satisfy `p`. -/
def dropStart (p : Char → Bool) (s : String) : String :=
  String.ofList (s.toList.dropWhile p)

/-- The characters of `s` without the run at its end that satisfies `p`. -/
def dropEndChars (p : Char → Bool) (s : List Char) : List Char :=
  (s.reverse.dropWhile p).reverse

/-- A text without its trailing characters that satisfy `p`. -/
def dropEnd (p : Char → Bool) (s : String) : String :=
  String.ofList (dropEndChars p s.toList)

/-- The characters of `s` without blanks at either end. -/
def trimChars (s : List Char) : List Char :=
  dropEndChars isBlank (s.dropWhile isBlank)

/-- A text without blanks at either end. -/
def trim (s : String) : String :=
  String.ofList (trimChars s.toList)

/-- Whether a text holds nothing but blanks. -/
def allBlank (s : String) : Bool :=
  s.toList.all isBlank

/-- The line without one carriage return at its end. -/
def stripReturn (line : List Char) : List Char :=
  if line.getLast? = some '\r' then line.dropLast else line

/-- The lines of a text: what stands before each line feed, less one carriage
return before it, and what follows the last line feed if that is not empty. -/
def lineChars (s : List Char) : List (List Char) :=
  let pieces := s.splitOn '\n'
  pieces.dropLast.map stripReturn ++
    match pieces.getLast? with
    | some last => if last.isEmpty then [] else [last]
    | none => []

/-- The lines of a text. -/
def lines (s : String) : List String :=
  (lineChars s.toList).map String.ofList

/-- The longest runs of characters that are no blanks, in order. -/
def fields (s : String) : List String :=
  ((s.toList.splitOnP isBlank).filter (!·.isEmpty)).map String.ofList

/-- Whether `part` occurs in `s` as consecutive characters. -/
def occursIn (part : List Char) : List Char → Bool
  | [] => part.isEmpty
  | c :: r => part.isPrefixOf (c :: r) || occursIn part r

/-- Whether the text `part` occurs in the text `s`. -/
def contains (s part : String) : Bool :=
  occursIn part.toList s.toList

/-- Every occurrence of the character `a` replaced by `b`. -/
def replaceChar (a b : Char) (s : String) : String :=
  String.ofList (s.toList.map fun c => if c = a then b else c)

/-- Whether `s` ends with the text `e`. -/
def endsWith (s e : String) : Bool :=
  e.toList.isSuffixOf s.toList

/-- Whether `s` begins with the text `p`. -/
def beginsWith (s p : String) : Bool :=
  p.toList.isPrefixOf s.toList

/-- The text after `p`, when `s` begins with `p`. -/
def after? (p s : String) : Option String :=
  if beginsWith s p then some (String.ofList (s.toList.drop p.length)) else none

/-- A text without its leading letters `v`, as versions are written. -/
def dropLeadingV (s : String) : String :=
  dropStart (· == 'v') s

end Text
end ReleaseLint
