/-
# The program

From command line arguments and environment variables to what is shown and an exit
code.

| variable | names |
| --- | --- |
| `REPLICATED_…_PATH` | the local binary of a tool |
| `REPLICATED_TOOLS_CACHE_DIR` | the cache of binaries |
| `XDG_CACHE_HOME`, `HOME` | the caches of the user |

An empty variable counts as none.
-/

import ReleaseLint.Command.Arguments

namespace ReleaseLint
namespace Command

/-- The variable that names the cache of binaries. -/
def cacheVariable : String := "REPLICATED_TOOLS_CACHE_DIR"

/-- Every variable that is looked at. -/
def variableNames : List String :=
  Tool.all.map (·.overrideVariable) ++ [cacheVariable, "XDG_CACHE_HOME", "HOME"]

/-- Where the program runs. -/
structure Environment where
  setting? : (name : String) → Option String
  platform : Platform
  color : Bool

namespace Environment

/-- The path that a variable names. -/
def path? (e : Environment) (name : String) : Option Path :=
  ((e.setting? name).filter (· != "")).map Path.mk

/-- The caches of the user. -/
def userCache? (e : Environment) : Option Path :=
  ((e.path? "XDG_CACHE_HOME").filter (·.isAbsolute)).or
    ((e.path? "HOME").map (· / ".cache"))

/-- The cache of binaries. -/
def cacheRoot (e : Environment) : Path :=
  (e.path? cacheVariable).getD
    ((e.userCache?.getD ⟨"."⟩) / "replicated" / "tools")

/-- Where binaries come from. -/
def resolver (e : Environment) : Tool.Resolver where
  cacheRoot := e.cacheRoot
  overrides t := e.path? t.overrideVariable
  versionsUrl := Tool.Resolver.standardVersionsUrl
  sites := .standard
  platform := e.platform

end Environment

/-- What a program leaves: its exit code, and what it has shown. -/
structure Ending where
  code : Nat
  shown : Shown
deriving DecidableEq, Repr, Inhabited

/-- The end of a program whose arguments ask for no run. -/
def Stop.ending : Stop → Ending
  | misuse m => ⟨2, ⟨"", m.message⟩⟩
  | help => ⟨0, ⟨usage, ""⟩⟩
  | version behindLint =>
    ⟨0, ⟨programName ++ (if behindLint then "-lint" else "") ++ " " ++ programVersion ++ "\n", ""⟩⟩

/-- The options of the command in a working directory. -/
def Arguments.options (a : Arguments) (directory : Path) : Options where
  project := (a.project.map (Path.anchor directory)).getD directory
  config := a.config.map Path.mk
  format := a.format
  strict := a.strict

/-- Run the program. -/
def program (e : Environment) (arguments : List String) : StateM Machine Ending := do
  match Arguments.read arguments with
  | .error stop => return stop.ending
  | .ok a =>
    let color := e.color && !a.noColor
    let theme := Theme.choose color
    let options := a.options (← get).workspace.directory
    match ← (lint options e.resolver a.mode color).run with
    | .ok (events, code) => return ⟨code, .events a.mode theme events⟩
    | .error failure =>
      return ⟨1, .events a.mode theme [.error ("Error: " ++ failure.message)]⟩

end Command
end ReleaseLint
