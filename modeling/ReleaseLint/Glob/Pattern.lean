/-
# Glob patterns

| piece | matches |
| --- | --- |
| `?` | one byte other than a slash |
| `*` | any bytes other than slashes |
| `**/` in front | nothing, or any bytes and a slash |
| `/**` at the end | a slash and any bytes |
| `/**/` | a slash, or any bytes between two slashes |
| `[…]`, `[!…]`, `[^…]` | one byte in a class, or not in it; slashes are not special |
| `{a,b}` | one of several patterns |
| a backslash and a character | that character |
| any other character | itself |

A class is closed by the first `]` that is not its first character.  The same
pieces serve search patterns and ignore files, which differ in two points: in ignore
files an unclosed class stands for itself, and empty alternatives do not count.
-/

import ReleaseLint.Text.Blank

namespace ReleaseLint
namespace Glob

/-- A piece of a pattern. -/
inductive Piece where
  | literal (c : Char)
  | one
  | run
  | leading
  | trailing
  | between
  | oneOf (negated : Bool) (ranges : List (Char × Char))
  | choice (branches : List (List Piece))
deriving Repr, Inhabited

/-- What is wrong with a pattern. -/
inductive Fault where
  | unclosedClass
  | invalidRange (lo hi : Char)
  | unopenedAlternates
  | unclosedAlternates
  | danglingEscape
deriving DecidableEq, Repr, Inhabited

/-- The wording of a fault. -/
def Fault.message : Fault → String
  | unclosedClass => "unclosed character class; missing ']'"
  | invalidRange lo hi => s!"invalid range; '{lo}' > '{hi}'"
  | unopenedAlternates =>
    "unopened alternate group; missing '\x7b' (maybe escape '\x7d' with '[\x7d]'?)"
  | unclosedAlternates =>
    "unclosed alternate group; missing '\x7d' (maybe escape '\x7b' with '[\x7b]'?)"
  | danglingEscape => "dangling '\\'"

/-- Whether a text holds a character that makes it a pattern. -/
def isPattern (s : String) : Bool :=
  s.toList.any fun c => c == '*' || c == '?' || c == '[' || c == '\x7b'

/-- The ranges of a class, last one first, while it is read. -/
structure ClassBody where
  ranges : List (Char × Char)
  first : Bool
  inRange : Bool

namespace ClassBody

/-- Close the open range at a character. -/
def close (b : ClassBody) (hi : Char) : Except Fault ClassBody :=
  match b.ranges with
  | [] => .ok b
  | (lo, _) :: r =>
    if hi < lo then .error (.invalidRange lo hi) else .ok ⟨(lo, hi) :: r, false, false⟩

/-- Add a character to a class. -/
def add (b : ClassBody) (c : Char) : Except Fault ClassBody :=
  if c = '-' ∧ ¬b.first ∧ ¬b.inRange then .ok { b with inRange := true }
  else if b.inRange then b.close c
  else .ok ⟨(c, c) :: b.ranges, false, false⟩

/-- The ranges in their order; a hyphen at the end stands for itself. -/
def finish (b : ClassBody) : List (Char × Char) :=
  (if b.inRange then ('-', '-') :: b.ranges else b.ranges).reverse

/-- The ranges of a class up to its closing bracket, and what follows; `none` if it
is not closed. -/
def read : ClassBody → List Char → Except Fault (Option (List (Char × Char) × List Char))
  | _, [] => .ok none
  | b, c :: r =>
    if c = ']' ∧ ¬b.first then .ok (some (b.finish, r))
    else
      match b.add c with
      | .error e => .error e
      | .ok b => read b r

end ClassBody

/-- Whether a class is negated, and what stands behind the sign of that. -/
def negation : List Char → Bool × List Char
  | '!' :: r => (true, r)
  | '^' :: r => (true, r)
  | r => (false, r)

/-- The class behind an opening bracket, and what follows; `none` if it is not closed. -/
def readClass (s : List Char) : Except Fault (Option (Piece × List Char)) :=
  let (negated, body) := negation s
  match ClassBody.read ⟨[], true, false⟩ body with
  | .error e => .error e
  | .ok none => .ok none
  | .ok (some (ranges, r)) => .ok (some (.oneOf negated ranges, r))

/-- A list of alternatives under way: the finished ones and the one that is read,
both last first. -/
structure Level where
  done : List (List Piece)
  current : List Piece

/-- A pattern under way: the level that is read, and the levels around it. -/
structure Draft where
  level : Level
  outer : List Level

namespace Draft

/-- Nothing is read. -/
def empty : Draft := ⟨⟨[], []⟩, []⟩

/-- Add a piece. -/
def push (d : Draft) (p : Piece) : Draft :=
  { d with level := { d.level with current := p :: d.level.current } }

/-- Begin a list of alternatives. -/
def openChoice (d : Draft) : Draft :=
  ⟨⟨[], []⟩, d.level :: d.outer⟩

/-- Begin the next alternative; outside of any, a comma stands for itself. -/
def comma (d : Draft) : Draft :=
  if d.outer.isEmpty then d.push (.literal ',')
  else { d with level := ⟨d.level.current.reverse :: d.level.done, []⟩ }

/-- End a list of alternatives. -/
def closeChoice (d : Draft) : Except Fault Draft :=
  match d.outer with
  | [] => .error .unopenedAlternates
  | level :: outer =>
    .ok (push ⟨level, outer⟩ (.choice ((d.level.current.reverse :: d.level.done).reverse)))

/-- Replace the last piece by `p`, unless it spans directories already. -/
def spanLast (d : Draft) (p : Piece) : Draft :=
  match d.level.current with
  | .leading :: _ | .trailing :: _ => d
  | current => { d with level := { d.level with current := p :: current.tail } }

/-- Add two stars, of which the first follows the character `before`, with `r`
behind them.  They span directories at the beginning and between slashes; returns
what is left of `r`. -/
def stars (d : Draft) (before : Option Char) (r : List Char) : Draft × List Char :=
  let plain := ((d.push .run).push .run, r)
  if d.level.current.isEmpty then
    match r with
    | [] => (d.push .leading, [])
    | '/' :: r => (d.push .leading, r)
    | _ => plain
  else if before != some '/' &&
      (d.outer.isEmpty || (before != some ',' && before != some '\x7b')) then plain
  else
    match r with
    | [] => (d.spanLast .trailing, [])
    | '/' :: r => (d.spanLast .between, r)
    | c :: _ =>
      if (c = ',' ∨ c = '\x7d') ∧ ¬d.outer.isEmpty then (d.spanLast .trailing, r) else plain

end Draft

/-- Where search patterns and ignore files differ. -/
structure Dialect where
  openClass : Bool
  emptyBranches : Bool
deriving DecidableEq, Repr

/-- The patterns of config files: a class is closed, and an alternative may be empty. -/
def Dialect.search : Dialect := ⟨false, true⟩

/-- The patterns of ignore files. -/
def Dialect.ignore : Dialect := ⟨true, false⟩

/-- Where the reading of a pattern stands: whether a bracket still opens a class, the
character before, and what is read. -/
structure Reading where
  classes : Bool
  last : Option Char
  draft : Draft

namespace Reading

/-- Nothing is read. -/
def start : Reading := ⟨true, none, .empty⟩

/-- Behind the character `c`, that left a draft. -/
def behind (x : Reading) (c : Char) (d : Draft) : Reading :=
  { x with last := some c, draft := d }

/-- Read the pieces that begin at the character `c`, with `r` behind it; returns what is
left of `r`. -/
def next (dialect : Dialect) (x : Reading) (c : Char) (r : List Char) :
    Except Fault (Reading × List Char) :=
  if c = '?' then .ok (x.behind c (x.draft.push .one), r)
  else if c = '*' then
    match r with
    | '*' :: r =>
      let (d, left) := x.draft.stars x.last r
      .ok (x.behind (if left.length < r.length then '/' else '*') d, left)
    | r => .ok (x.behind c (x.draft.push .run), r)
  else if c = '[' ∧ x.classes then
    match readClass r with
    | .error e => .error e
    | .ok (some (p, r)) => .ok (x.behind ']' (x.draft.push p), r)
    | .ok none =>
      if dialect.openClass then
        .ok ({ x.behind c (x.draft.push (.literal c)) with classes := false }, r)
      else .error .unclosedClass
  else if c = '\x7b' then .ok (x.behind c x.draft.openChoice, r)
  else if c = '\x7d' then
    match x.draft.closeChoice with
    | .error e => .error e
    | .ok d => .ok (x.behind c d, r)
  else if c = ',' then .ok (x.behind c x.draft.comma, r)
  else if c = '\\' then
    match r with
    | [] => .error .danglingEscape
    | e :: r => .ok (x.behind e (x.draft.push (.literal e)), r)
  else .ok (x.behind c (x.draft.push (.literal c)), r)

end Reading

/-- Read on in at most `n` steps. -/
def readPieces (dialect : Dialect) : (n : Nat) → Reading → List Char → Except Fault Draft
  | _, x, [] => .ok x.draft
  | 0, x, _ => .ok x.draft
  | n + 1, x, c :: r =>
    match x.next dialect c r with
    | .error e => .error e
    | .ok (x, r) => readPieces dialect n x r

mutual

/-- A piece without its empty alternatives; `none` if nothing is left. -/
def Piece.dropEmpty : Piece → Option Piece
  | .choice branches =>
    let branches := dropEmptyBranches branches
    if branches.isEmpty then none else some (.choice branches)
  | p => some p

/-- A list of pieces without their empty alternatives. -/
def dropEmptyPieces : List Piece → List Piece
  | [] => []
  | p :: r => p.dropEmpty.toList ++ dropEmptyPieces r

/-- The alternatives that are not empty. -/
def dropEmptyBranches : List (List Piece) → List (List Piece)
  | [] => []
  | b :: r =>
    let b := dropEmptyPieces b
    if b.isEmpty then dropEmptyBranches r else b :: dropEmptyBranches r

end

/-- Read a text to its end. -/
def Reading.finish (dialect : Dialect) (x : Reading) (s : List Char) : Except Fault Draft :=
  readPieces dialect s.length x s

/-- The pieces of a pattern. -/
def parse (dialect : Dialect) (s : String) : Except Fault (List Piece) :=
  match Reading.start.finish dialect s.toList with
  | .error e => .error e
  | .ok d =>
    if d.outer.isEmpty then
      let pieces := d.level.current.reverse
      .ok (if dialect.emptyBranches then pieces else dropEmptyPieces pieces)
    else .error .unclosedAlternates

end Glob
end ReleaseLint
