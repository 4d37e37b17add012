/-
# The tree in an archive

The regular files of an archive below a directory, with the directories that lead to
them.  Of several entries with one path, the last one counts; an entry that cannot be
read, or that does not fit into the tree, is left out.
-/

import ReleaseLint.Archive.Entry
import ReleaseLint.Tree

namespace ReleaseLint
namespace Archive

/-- The tree with a file put at a path, if there is place for it. -/
def putFile (t : Tree) (p : Path) (data : ByteArray) : Tree :=
  match p.parent?, p.fileName? with
  | some directory, some name =>
    let (made, _) := t.makeDirectories ⟨"/"⟩ directory.segments
    match made.locate directory with
    | .error _ => t
    | .ok names =>
      match made.find? (names ++ [name]) with
      | some .directory => t
      | _ => made.put (names ++ [name]) (.file data false)
  | _, _ => t

/-- The tree with an entry put below a directory. -/
def putEntry (directory : Path) (t : Tree) (e : Entry) : Tree :=
  match e.regular, e.content with
  | true, .ok data => putFile t (Path.anchor directory ("./" ++ e.path)) data
  | _, _ => t

/-- The tree of the entries of an archive below a directory. -/
def Listing.tree (l : Listing) (directory : Path) : Tree :=
  l.entries.foldl (putEntry directory) (Tree.empty.makeDirectories ⟨"/"⟩ directory.segments).1

end Archive
end ReleaseLint
