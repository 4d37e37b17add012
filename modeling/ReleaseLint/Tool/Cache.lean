/-
# The cache of binaries

    root / tool / version / os-arch / binary

A binary is stored as a whole: it takes the place of whatever file stands there, and
its directories are made where they are missing.
-/

import ReleaseLint.Session

namespace ReleaseLint
namespace Tool
namespace Cache

/-- Where the binary of a version of a tool is kept. -/
def binaryPath (root : Path) (t : Tool) (version : String) (p : Platform) : Path :=
  root / t.name / version / p.text / t.binaryName p

/-- Whether the binary of a version of a tool is there. -/
def isCached (w : Workspace) (root : Path) (t : Tool) (version : String) (p : Platform) : Bool :=
  w.hasFile (binaryPath root t version p)

/-- The workspace with a file of a name at a path in a directory that is there.  The
file takes the place of another file or of a link. -/
def putFile (w : Workspace) (directory path : Path) (name : String) (data : ByteArray) :
    Except SystemFault Workspace := do
  if let some f := path.fault? then throw f
  let names := (← w.tree.locate (w.absolute directory)) ++ [name]
  match w.tree.find? names with
  | some .directory => throw .isADirectory
  | _ => return { w with tree := w.tree.put names (.file data true) }

/-- Store the binary of a version of a tool. -/
def store (root : Path) (t : Tool) (version : String) (p : Platform) (binary : ByteArray) :
    Session Path := do
  let w ← Session.workspace
  let target := binaryPath root t version p
  let directory := target.parent?.getD root
  let (w, fault) := w.makeDirectories directory
  modify fun m => { m with workspace := w }
  if fault.isSome then throw (.cacheDirectory directory)
  match putFile w directory target (t.binaryName p) binary with
  | .error _ => throw (.cacheFile target)
  | .ok w =>
    modify fun m => { m with workspace := w }
    return target

end Cache
end Tool
end ReleaseLint
