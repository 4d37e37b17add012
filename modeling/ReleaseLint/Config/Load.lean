/-
# The config of a project

Config files apply to the directory they stand in and to all below it.  The files
from the root down to the start are laid over each other, the innermost one on top;
each one's paths are seen from its own directory.  A start that is a file is the only
config.
-/

import ReleaseLint.Config.Merge
import ReleaseLint.Config.Reader
import ReleaseLint.Error

namespace ReleaseLint
namespace Config

/-- The names of config files; the first one that is there counts. -/
def fileNames : List String := [".replicated", ".replicated.yaml"]

/-- The config file of a directory. -/
def fileIn? (w : Workspace) (directory : Path) : Option Path :=
  (fileNames.map (directory / ·)).find? w.hasFile

/-- The config files that apply to a path, the outermost first. -/
def filesAbove (w : Workspace) (start : Path) : List Path :=
  (start.ancestors.filterMap (fileIn? w)).reverse

/-- The directory of the innermost config file. -/
def projectRoot? (w : Workspace) (start : Path) : Option Path :=
  ((filesAbove w start).getLast?).bind Path.parent?

/-- The config that the content of a file writes. -/
def parse (path : Path) (content : String) : Except Error Config :=
  match ofText content with
  | .ok c => .ok c
  | .error fault => .error (.config path fault)

/-- The config of a file, with its paths as seen from the directory of the file. -/
def load (w : Workspace) (path : Path) : Except Error Config :=
  match w.readText path with
  | .error fault => .error (.system fault)
  | .ok content =>
    match parse path content with
    | .error e => .error e
    | .ok c => .ok ((path.parent?.map fun directory => c.anchor directory).getD c)

/-- Refuse a config with issues. -/
def validate (c : Config) : Except Error Unit :=
  match c.issues with
  | [] => .ok ()
  | issues => .error (.invalidConfig issues)

/-- The settings of all config files that apply to a path. -/
def gather (w : Workspace) (start : Path) : Except Error Config :=
  if w.hasFile start then load w start
  else do return mergeAll (← (filesAbove w start).mapM (load w))

/-- The config that applies to a path, complete and without issues. -/
def resolve (w : Workspace) (start : Path) : Except Error Config := do
  let c := (← gather w (w.absolutize start)).withDefaults.distinct
  validate c
  return c

end Config
end ReleaseLint
