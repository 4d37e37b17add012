/-
# The documents of a YAML text

The tokens of a text are put together to a tree for each document.  An alias stays
in the tree as a number; the document keeps the nodes that such numbers stand for.

    node     := alias | properties content?          a node without content is an empty scalar
    content  := scalar | `[` … `]` | `{` … `}` | block collection
    document := directives `---` node? | node         only the first may do without `---`

The documents before a fault are kept: a stream that breaks off still has them.
-/

import ReleaseLint.Yaml.Token

namespace ReleaseLint
namespace Yaml

/-- A node of a document. -/
inductive Node where
  | scalar (tag : Option Tag) (text : String) (plain : Bool)
  | sequence (tag : Option Tag) (items : List Node)
  | mapping (tag : Option Tag) (entries : List (Node × Node))
  | reference (number : Nat)
deriving Repr, Inhabited

namespace Node

/-- The node without text that stands where a value is left out. -/
def empty : Node := .scalar none "" true

mutual

/-- The number of events a node consists of: two for a collection, besides those
of its parts. -/
def events : Node → Nat
  | scalar .. | reference _ => 1
  | sequence _ items => 2 + eventsOfItems items
  | mapping _ entries => 2 + eventsOfEntries entries

/-- The number of events of a list of nodes. -/
def eventsOfItems : List Node → Nat
  | [] => 0
  | item :: r => item.events + eventsOfItems r

/-- The number of events of a list of entries. -/
def eventsOfEntries : List (Node × Node) → Nat
  | [] => 0
  | (key, value) :: r => key.events + value.events + eventsOfEntries r

end

end Node

/-- An anchored node: its number, and how many nodes were anchored before it. -/
structure Anchored where
  number : Nat
  rank : Nat
  node : Node

/-- One document: its node, unless the text is empty, and its anchored nodes. -/
structure Document where
  root : Option Node
  anchored : List Anchored

/-- The documents of a text up to the first fault. -/
structure Stream where
  documents : List Document
  fault : Option Fault

/-- The node that a number stands for: of several, the one that begins last. -/
def Document.target? (d : Document) (number : Nat) : Option Node :=
  let best := d.anchored.foldl (fun best a =>
    if a.number = number then
      match best with
      | some b => if b.rank < a.rank then some a else best
      | none => some a
    else best) (none : Option Anchored)
  best.map (·.node)

/-- The number of events of a document. -/
def Document.events (d : Document) : Nat :=
  match d.root with
  | some n => n.events
  | none => 1

/-- What is left of the tokens while a document is put together. -/
structure Builder where
  tokens : List Token
  fault : Option Fault
  names : List (String × Nat)
  rank : Nat
  anchored : List Anchored
  handles : List (String × List UInt8)

/-- Putting nodes together. -/
abbrev Build := StateT Builder (Except Fault)

namespace Build

/-- The next token; `none` stands for the end of the text. -/
def peek : Build (Option Token) := do
  let s ← get
  match s.tokens with
  | t :: _ => pure (some t)
  | [] =>
    match s.fault with
    | some e => throw e
    | none => pure none

/-- Go on behind the next token. -/
def drop : Build Unit :=
  modify fun s => { s with tokens := s.tokens.tail }

/-- Give the next number to `name`: the number of names known so far. -/
def register (name : String) : Build (Nat × Nat) := do
  let s ← get
  let number := s.names.length
  let names :=
    if s.names.any (·.1 == name) then
      s.names.map fun (n, k) => if n == name then (n, number) else (n, k)
    else s.names ++ [(name, number)]
  set { s with names, rank := s.rank + 1 }
  pure (number, s.rank)

/-- Keep the node that was anchored. -/
def keep (anchor : Option (Nat × Nat)) (node : Node) : Build Node := do
  match anchor with
  | none => pure ()
  | some (number, rank) => modify fun s => { s with anchored := ⟨number, rank, node⟩ :: s.anchored }
  pure node

/-- The full text of a tag. -/
def fullTag (handle : String) (suffix : List UInt8) : Build Tag := do
  if handle = "" then pure (.ofParts [] suffix)
  else
    match (← get).handles.find? (·.1 == handle) with
    | some (_, leader) => pure (.ofParts leader suffix)
    | none => throw Fault.unknownHandle

/-- The anchor and the tag in front of a node, in either order. -/
def properties : Build (Option String × Option (String × List UInt8)) := do
  match ← peek with
  | some (.anchor a) =>
    drop
    match ← peek with
    | some (.tag h t) => drop; pure (some a, some (h, t))
    | _ => pure (some a, none)
  | some (.tag h t) =>
    drop
    match ← peek with
    | some (.anchor a) => drop; pure (some a, some (h, t))
    | _ => pure (none, some (h, t))
  | _ => pure (none, none)

/-- Whether one of `ends` comes next; then nothing stands here. -/
def absent (ends : List Token) : Build Bool := do
  match ← peek with
  | some t => pure (ends.contains t)
  | none => pure false

mutual

/-- One node.  In a `block` it may be a block collection, and where it may be
`indentless` its dashes may stand in the column of the mapping around it. -/
def node : (n : Nat) → (block indentless : Bool) → Build Node
  | 0, _, _ => throw Fault.tooLong
  | n + 1, block, indentless => do
    match ← peek with
    | some (.reference name) =>
      drop
      match (← get).names.find? (·.1 == name) with
      | some (_, number) => pure (.reference number)
      | none => throw Fault.unknownAnchor
    | _ =>
      let (name, written) ← properties
      let tag ← written.mapM fun (h, t) => fullTag h t
      let anchor ← name.mapM register
      let content ←
        match ← peek with
        | some .entry =>
          if indentless then some <$> (Node.sequence tag <$> indentlessItems n) else pure none
        | some (.scalar text plain) => drop; pure (some (Node.scalar tag text plain))
        | some .openBracket => drop; some <$> (Node.sequence tag <$> flowItems n true)
        | some .openBrace => drop; some <$> (Node.mapping tag <$> flowEntries n true)
        | some .sequenceStart =>
          if block then do drop; some <$> (Node.sequence tag <$> blockItems n) else pure none
        | some .mappingStart =>
          if block then do drop; some <$> (Node.mapping tag <$> blockEntries n) else pure none
        | _ => pure none
      match content with
      | some node => keep anchor node
      | none =>
        if name.isSome || written.isSome then keep anchor (.scalar tag "" true)
        else throw (Fault.expected "node content")

/-- The node behind an indicator, unless one of `ends` comes next. -/
def nodeUnless : (n : Nat) → (ends : List Token) → (block indentless : Bool) → Build Node
  | 0, _, _, _ => throw Fault.tooLong
  | n + 1, ends, block, indentless => do
    if ← absent ends then pure Node.empty else node n block indentless

/-- The items of a block sequence. -/
def blockItems : (n : Nat) → Build (List Node)
  | 0 => throw Fault.tooLong
  | n + 1 => do
    match ← peek with
    | some .entry =>
      drop
      let item ← nodeUnless n [.entry, .blockEnd] true false
      return item :: (← blockItems n)
    | some .blockEnd => drop; pure []
    | _ => throw (Fault.expected "'-' indicator")

/-- The items of a block sequence in the column of the mapping around it. -/
def indentlessItems : (n : Nat) → Build (List Node)
  | 0 => throw Fault.tooLong
  | n + 1 => do
    match ← peek with
    | some .entry =>
      drop
      let item ← nodeUnless n [.entry, .key, .value, .blockEnd] true false
      return item :: (← indentlessItems n)
    | _ => pure []

/-- The entries of a block mapping. -/
def blockEntries : (n : Nat) → Build (List (Node × Node))
  | 0 => throw Fault.tooLong
  | n + 1 => do
    match ← peek with
    | some .key =>
      drop
      let key ← nodeUnless n [.key, .value, .blockEnd] true true
      let value ←
        match ← peek with
        | some .value => drop; nodeUnless n [.key, .value, .blockEnd] true true
        | _ => pure Node.empty
      return (key, value) :: (← blockEntries n)
    | some .blockEnd => drop; pure []
    | _ => throw (Fault.expected "key")

/-- The items between brackets; a pair among them is a mapping of its own.  Behind
a question mark without a key, one more token is lost. -/
def flowItems : (n : Nat) → (first : Bool) → Build (List Node)
  | 0, _ => throw Fault.tooLong
  | n + 1, first => do
    if !first then
      match ← peek with
      | some .closeBracket => pure ()
      | some .comma => drop
      | _ => throw (Fault.expected "',' or ']'")
    match ← peek with
    | some .closeBracket => drop; pure []
    | some .key =>
      drop
      let key ←
        if ← absent [.value, .comma, .closeBracket] then do drop; pure Node.empty
        else node n false false
      let value ←
        match ← peek with
        | some .value => drop; nodeUnless n [.comma, .closeBracket] false false
        | _ => pure Node.empty
      return Node.mapping none [(key, value)] :: (← flowItems n false)
    | _ =>
      let item ← node n false false
      return item :: (← flowItems n false)

/-- The entries between braces. -/
def flowEntries : (n : Nat) → (first : Bool) → Build (List (Node × Node))
  | 0, _ => throw Fault.tooLong
  | n + 1, first => do
    if !first then
      match ← peek with
      | some .closeBrace => pure ()
      | some .comma => drop
      | _ => throw (Fault.expected "',' or '\x7d'")
    match ← peek with
    | some .closeBrace => drop; pure []
    | some .key =>
      drop
      let key ← nodeUnless n [.value, .comma, .closeBrace] false false
      let value ←
        match ← peek with
        | some .value => drop; nodeUnless n [.comma, .closeBrace] false false
        | _ => pure Node.empty
      return (key, value) :: (← flowEntries n false)
    | _ =>
      let key ← node n false false
      return (key, Node.empty) :: (← flowEntries n false)

end

/-- The directives in front of a document: whether a version was given, and the
handles. -/
def directives : (n : Nat) → (version : Bool) → (handles : List (String × List UInt8)) →
    Build (List (String × List UInt8))
  | 0, _, _ => throw Fault.tooLong
  | n + 1, version, handles => do
    match ← peek with
    | some (.directive major minor) =>
      if version || major != 1 || (minor != 1 && minor != 2) then throw Fault.directiveClash
      drop
      directives n true handles
    | some (.tagDirective handle leader) =>
      if handles.any (·.1 == handle) then throw Fault.directiveClash
      drop
      directives n version (handles ++ [(handle, leader)])
    | _ => pure handles

/-- The handles that every document knows. -/
def standardHandles : List (String × List UInt8) :=
  [("!", (Tag.ofString "!").bytes), ("!!", (Tag.core "").bytes)]

/-- Go on behind document end marks. -/
def dropEnds : (n : Nat) → Build Unit
  | 0 => pure ()
  | n + 1 => do
    match ← peek with
    | some .documentEnd => drop; dropEnds n
    | _ => pure ()

/-- The next document, or `none` at the end of the text. -/
def document (n : Nat) (first : Bool) : Build (Option Document) := do
  if !first then dropEnds n
  let bare ←
    match ← peek with
    | none | some (.directive ..) | some (.tagDirective ..) | some .documentStart => pure false
    | some _ => pure first
  let start ← peek
  if start.isNone then return none
  modify fun s => { s with names := [], rank := 0, anchored := [], handles := standardHandles }
  let root ←
    if bare then node n true false
    else do
      let handles ← directives n false []
      modify fun s => { s with handles := handles ++ standardHandles }
      match ← peek with
      | some .documentStart => drop
      | _ => throw (Fault.expected "<document start>")
      match ← peek with
      | none | some (.directive ..) | some (.tagDirective ..) | some .documentStart
      | some .documentEnd => pure Node.empty
      | some _ => node n true false
  match ← peek with
  | some .documentEnd => drop
  | _ => pure ()
  return some ⟨some root, (← get).anchored⟩

end Build

/-- At most `n` documents. -/
def Stream.build (size : Nat) : (n : Nat) → (first : Bool) → Builder → Stream
  | 0, _, _ => ⟨[], some .tooLong⟩
  | n + 1, first, s =>
    match (Build.document size first).run s with
    | .error e => ⟨[], some e⟩
    | .ok (none, _) => ⟨if first then [⟨none, []⟩] else [], none⟩
    | .ok (some d, s) =>
      let rest := Stream.build size n false s
      ⟨d :: rest.documents, rest.fault⟩

/-- The documents of a text; an empty text holds one without a node. -/
def Stream.ofText (s : String) : Stream :=
  let (tokens, fault) := Token.ofText s
  Stream.build (4 * tokens.length + 8) (tokens.length + 2) true ⟨tokens, fault, [], 0, [], []⟩

end Yaml
end ReleaseLint
