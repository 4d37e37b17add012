/-
# Charts

A chart is a directory with a file `Chart.yaml` or `Chart.yml` that gives its name
and version.  Only these two keys of the file are looked at; the values of the others
need not even be values.

| value of a key | text |
| --- | --- |
| string, number, boolean | as it is written, without blanks at its ends |
| any other, or none | none, which is refused |
-/

import ReleaseLint.Path
import ReleaseLint.Text.Blank
import ReleaseLint.Yaml.Value

namespace ReleaseLint

/-- A chart directory with the name and version it declares. -/
structure Chart where
  path : Path
  name : String
  version : String
deriving DecidableEq, Repr, Inhabited

/-- The text of a value that is a string, a number or a boolean and has no tag. -/
def Yaml.Value.scalarText? : Yaml.Value → Option String
  | .string s => some s
  | .number n => some n.text
  | .bool b => some (if b then "true" else "false")
  | _ => none

namespace Chart

/-- The files that mark a directory as a chart, in the order in which they are tried. -/
def markers : List String := ["Chart.yaml", "Chart.yml"]

/-- What charts and their manifests are paired by. -/
def key (c : Chart) : String :=
  c.name ++ ":" ++ c.version

/-- Why a directory gives no name and version. -/
inductive Fault where
  | unreadable
  | unparsable (f : Yaml.Fault)
  | noName
  | noVersion
deriving DecidableEq, Repr, Inhabited

/-- The wording of a fault. -/
def Fault.message : Fault → String
  | unreadable => "failed to read Chart.yaml or Chart.yml"
  | unparsable f => "failed to parse Chart.yaml: " ++ f.message
  | noName => "chart name is empty in Chart.yaml"
  | noVersion => "chart version is empty in Chart.yaml"

/-- The values of the two keys that are looked at. -/
structure Fields where
  name : Option Yaml.Value
  version : Option Yaml.Value
deriving Inhabited

/-- Read the entries of a chart file; neither key comes twice. -/
def readEntries (d : Yaml.Document) :
    Fields → List (Yaml.Node × Yaml.Node) → Yaml.Visit Fields
  | fields, [] => pure fields
  | fields, (key, node) :: r => do
    let value := d.value (Yaml.Document.maxDepth - 1) node
    match ← d.follow key with
    | .scalar _ "name" _ =>
      if fields.name.isSome then throw .duplicateKey
      readEntries d { fields with name := some (← value) } r
    | .scalar _ "version" _ =>
      if fields.version.isSome then throw .duplicateKey
      readEntries d { fields with version := some (← value) } r
    | .scalar .. => readEntries d fields r
    | _ => throw (.shape "a key")

/-- Read the root of a chart file; a file without content has no entries. -/
def readRoot (d : Yaml.Document) (root : Yaml.Node) : Yaml.Visit Fields := do
  match ← d.follow root with
  | .mapping _ entries => readEntries d ⟨none, none⟩ entries
  | .scalar tag text true =>
    let isNull : Bool :=
      match tag with
      | none => text == "" || Yaml.Plain.isNull text
      | some t => if t = .core "null" then Yaml.Plain.isNull text else text == ""
    if isNull then pure ⟨none, none⟩ else throw (.shape "a mapping")
  | _ => throw (.shape "a mapping")

/-- The two keys of a chart file. -/
def readFields (content : String) : Except Yaml.Fault Fields := do
  let d ← Yaml.Document.only? content
  match d.root with
  | none => .ok ⟨none, none⟩
  | some root => ((readRoot d root).run 0).map (·.1)

/-- The text of a field without blanks at its ends; empty if there is none. -/
def fieldText (v : Option Yaml.Value) : String :=
  Text.trim ((v.bind (·.scalarText?)).getD "")

/-- The chart at a path whose file has this content. -/
def ofText (path : Path) (content : String) : Except Fault Chart :=
  match readFields content with
  | .error f => .error (.unparsable f)
  | .ok fields =>
    let name := fieldText fields.name
    let version := fieldText fields.version
    if name = "" then .error .noName
    else if version = "" then .error .noVersion
    else .ok ⟨path, name, version⟩

end Chart
end ReleaseLint
