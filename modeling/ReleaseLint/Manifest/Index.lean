/-
# The index of manifests

Manifests by their key.  No key is stored twice: the first manifest with a key stays,
and storing another one fails.
-/

import ReleaseLint.Manifest.Basic

namespace ReleaseLint
namespace Manifest

/-- The manifests that are stored, in the order in which they came. -/
structure Index where
  manifests : List Manifest
deriving Repr, Inhabited

/-- Two manifests with one key: the stored one and the one refused. -/
structure Clash where
  key : String
  first : Path
  second : Path
deriving DecidableEq, Repr, Inhabited

namespace Index

/-- No manifests. -/
def empty : Index := ⟨[]⟩

/-- The manifest with a key. -/
def get? (index : Index) (key : String) : Option Manifest :=
  index.manifests.find? (·.key == key)

/-- Whether a manifest with a key is stored. -/
def has (index : Index) (key : String) : Bool :=
  (index.get? key).isSome

/-- Whether no manifest is stored. -/
def isEmpty (index : Index) : Bool :=
  index.manifests.isEmpty

/-- Store a manifest. -/
def insert (index : Index) (m : Manifest) : Except Clash Index :=
  match index.get? m.key with
  | some stored => .error ⟨m.key, stored.source, m.source⟩
  | none => .ok ⟨index.manifests ++ [m]⟩

/-- Store manifests up to the first clash; the manifests before it stay stored. -/
def insertAll : Index → List Manifest → Index × Option Clash
  | index, [] => (index, none)
  | index, m :: r =>
    match index.insert m with
    | .ok index => insertAll index r
    | .error clash => (index, some clash)

/-- Store all of some manifests. -/
def extend (index : Index) (manifests : List Manifest) : Except Clash Index :=
  match index.insertAll manifests with
  | (index, none) => .ok index
  | (_, some clash) => .error clash

/-- The manifests in the order of their keys. -/
def sorted (index : Index) : List Manifest :=
  index.manifests.mergeSort fun a b => a.key ≤ b.key

end Index
end Manifest
end ReleaseLint
