/-
# File trees

A tree is the list of its entries with the names that lead to them from the root:
regular files, directories and symbolic links.  Looking up a path follows links, at
most forty of them, and a file has nothing below it, not even a dot.

A `Workspace` is a tree seen from a working directory.
-/

import ReleaseLint.Path

namespace ReleaseLint

/-- Why the system refuses an operation. -/
inductive SystemFault where
  | notFound
  | permissionDenied
  | alreadyExists
  | notADirectory
  | isADirectory
  | notEmpty
  | execFormat
  | nameTooLong
  | tooManyLinks
  | notText
  | zeroInName
  | zeroInArgument
  | argumentTooLong
deriving DecidableEq, Repr, Inhabited

/-- The wording of a refusal. -/
def SystemFault.message : SystemFault → String
  | notFound => "No such file or directory (os error 2)"
  | permissionDenied => "Permission denied (os error 13)"
  | alreadyExists => "File exists (os error 17)"
  | notADirectory => "Not a directory (os error 20)"
  | isADirectory => "Is a directory (os error 21)"
  | notEmpty => "Directory not empty (os error 39)"
  | execFormat => "Exec format error (os error 8)"
  | nameTooLong => "File name too long (os error 36)"
  | tooManyLinks => "Too many levels of symbolic links (os error 40)"
  | notText => "stream did not contain valid UTF-8"
  | zeroInName => "file name contained an unexpected NUL byte"
  | zeroInArgument => "nul byte found in provided data"
  | argumentTooLong => "Argument list too long (os error 7)"

/-- The names that lead from the root to an entry. -/
abbrev Names := List String

/-- What stands at an entry. -/
inductive Node where
  | file (data : ByteArray) (executable : Bool)
  | directory
  | link (target : Path)
deriving Inhabited

namespace Node

/-- Whether a node is a regular file. -/
def isFile : Node → Bool
  | file .. => true
  | _ => false

/-- Whether a node is a directory. -/
def isDirectory : Node → Bool
  | directory => true
  | _ => false

end Node

/-- A file tree. -/
structure Tree where
  entries : List (Names × Node)

namespace Tree

/-- The tree that holds only the root. -/
def empty : Tree := ⟨[]⟩

/-- What stands at some names. -/
def find? (t : Tree) (names : Names) : Option Node :=
  if names.isEmpty then some .directory
  else (t.entries.find? (·.1 == names)).map (·.2)

/-- How far a list of segments leads before a link is met. -/
inductive Progress where
  | arrived (names : Names)
  | met (here : Names) (target : Path) (rest : List Segment)
  | refused (f : SystemFault)

/-- Follow segments from the directory `here` up to a link. -/
def advance (t : Tree) (here : Names) : List Segment → Progress
  | [] => .arrived here
  | .root :: r => advance t [] r
  | .here :: r => advance t here r
  | .parent :: r => advance t here.dropLast r
  | .name s :: r =>
    if s.toList.contains '\x00' then .refused .zeroInName
    else if 255 < s.utf8ByteSize then .refused .nameTooLong
    else
      match t.find? (here ++ [s]) with
      | none => .refused .notFound
      | some .directory => advance t (here ++ [s]) r
      | some (.file ..) => if r.isEmpty then .arrived (here ++ [s]) else .refused .notADirectory
      | some (.link target) => .met here target r

/-- Whether a path asks for a directory by a slash or a dot at its end. -/
def asksForDirectory (p : Path) : Bool :=
  match (p.text.toList.splitOn '/').getLast? with
  | some last => last.isEmpty || last == ['.']
  | none => false

/-- The segments of a path, with a dot behind them if it asks for a directory: a file
has no dot below it. -/
def route (p : Path) : List Segment :=
  p.segments ++ if asksForDirectory p then [.here] else []

/-- Follow segments and at most `links` links from the directory `here`. -/
def follow (t : Tree) : (links : Nat) → (here : Names) → List Segment → Except SystemFault Names
  | links, here, segments =>
    match advance t here segments with
    | .arrived names => .ok names
    | .refused f => .error f
    | .met here target rest =>
      match links with
      | 0 => .error .tooManyLinks
      | links + 1 => follow t links here (route target ++ rest)

/-- How many links are followed. -/
def maxLinks : Nat := 40

/-- The names to which an absolute path leads. -/
def locate (t : Tree) (p : Path) : Except SystemFault Names :=
  if p.text = "" then .error .notFound
  else t.follow maxLinks [] (route p)

/-- What stands at an absolute path. -/
def node (t : Tree) (p : Path) : Except SystemFault Node :=
  match t.locate p with
  | .error f => .error f
  | .ok names =>
    match t.find? names with
    | some n => .ok n
    | none => .error .notFound

/-- The entries below some names, with the names that lead on from there. -/
def below (t : Tree) (top : Names) : List (Names × Node) :=
  t.entries.filterMap fun e =>
    if top.isPrefixOf e.1 && top.length < e.1.length then some (e.1.drop top.length, e.2) else none

/-- Put a node at some names. -/
def put (t : Tree) (names : Names) (n : Node) : Tree :=
  if t.entries.any (·.1 == names) then
    ⟨t.entries.map fun e => if e.1 == names then (names, n) else e⟩
  else ⟨t.entries ++ [(names, n)]⟩

/-- Remove an entry and all entries below it. -/
def remove (t : Tree) (names : Names) : Tree :=
  ⟨t.entries.filter fun e => !names.isPrefixOf e.1⟩

/-- Make the directories that lead along some segments from the directory at `here`,
where they are missing.  Those that are made before a refusal stay. -/
def makeDirectories (t : Tree) (here : Path) : List Segment → Tree × Option SystemFault
  | [] => (t, none)
  | s :: r =>
    match t.node (here / s.text) with
    | .ok .directory => makeDirectories t (here / s.text) r
    | .ok _ => (t, some .alreadyExists)
    | .error .notFound =>
      match t.locate here with
      | .error f => (t, some f)
      | .ok names =>
        match t.find? (names ++ [s.text]) with
        | some _ => (t, some .alreadyExists)
        | none => makeDirectories (t.put (names ++ [s.text]) .directory) (here / s.text) r
    | .error f => (t, some f)

end Tree

namespace Path

/-- The number of bytes that no path may reach. -/
def maxSize : Nat := 4096

/-- What is wrong with a path as it is written, whatever the tree. -/
def fault? (p : Path) : Option SystemFault :=
  if p.text.toList.contains '\x00' then some .zeroInName
  else if p.text = "" then some .notFound
  else if maxSize ≤ p.text.utf8ByteSize then some .nameTooLong
  else none

end Path

/-- A tree seen from a working directory. -/
structure Workspace where
  tree : Tree
  directory : Path

namespace Workspace

/-- A path as seen from the root. -/
def absolute (w : Workspace) (p : Path) : Path :=
  w.directory / p.text

/-- A path as seen from the root, cleaned. -/
def absolutize (w : Workspace) (p : Path) : Path :=
  (w.absolute p).clean

/-- What stands at a path. -/
def node (w : Workspace) (p : Path) : Except SystemFault Node :=
  match p.fault? with
  | some f => .error f
  | none => w.tree.node (w.absolute p)

/-- Make the directory at a path and those that lead to it, where they are missing. -/
def makeDirectories (w : Workspace) (p : Path) : Workspace × Option SystemFault :=
  match p.fault? with
  | some f => (w, some f)
  | none =>
    let (tree, fault) := w.tree.makeDirectories ⟨"/"⟩ (w.absolute p).segments
    ({ w with tree }, fault)

/-- Whether anything stands at a path. -/
def has (w : Workspace) (p : Path) : Bool :=
  (w.node p).isOk

/-- Whether a regular file stands at a path. -/
def hasFile (w : Workspace) (p : Path) : Bool :=
  match w.node p with
  | .ok n => n.isFile
  | .error _ => false

/-- Whether a directory stands at a path. -/
def hasDirectory (w : Workspace) (p : Path) : Bool :=
  match w.node p with
  | .ok n => n.isDirectory
  | .error _ => false

/-- The bytes of the file at a path. -/
def read (w : Workspace) (p : Path) : Except SystemFault ByteArray :=
  match w.node p with
  | .ok (.file data _) => .ok data
  | .ok _ => .error .isADirectory
  | .error f => .error f

/-- The text of the file at a path. -/
def readText (w : Workspace) (p : Path) : Except SystemFault String :=
  match w.read p with
  | .ok data => ((String.fromUTF8? data).map .ok).getD (.error .notText)
  | .error f => .error f

end Workspace
end ReleaseLint
