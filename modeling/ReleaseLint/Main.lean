/-
# The program on a stream

The project comes as a gzip tar archive on standard input and is linted in a directory
of its own.  Nothing is downloaded and no linter is started: what needs either fails
with a message of its own, so that the run shows how a project is understood.
-/

import ReleaseLint.Archive.Format
import ReleaseLint.Archive.Unpack
import ReleaseLint.Command.Program

namespace ReleaseLint

/-- The directory that holds the project. -/
def projectDirectory : Path := ⟨"/project"⟩

/-- The machine on which an archived project is linted. -/
def archivedProject (data : ByteArray) : Machine :=
  let tree := (Archive.Format.tarGz.listing data).tree projectDirectory
  .fresh .silent ⟨tree, projectDirectory⟩

/-- Read a stream to its end. -/
partial def readAll (input : IO.FS.Stream) (data : ByteArray) : IO ByteArray := do
  let more ← input.read 65536
  if more.isEmpty then return data else readAll input (data ++ more)

/-- The environment of the process. -/
def processEnvironment : IO Command.Environment := do
  let settings ← Command.variableNames.mapM fun name => return (name, ← IO.getEnv name)
  return {
    setting? := fun name => (settings.find? (·.1 == name)).bind (·.2)
    platform := ⟨"linux", "amd64"⟩
    color := false }

end ReleaseLint

open ReleaseLint in
/-- Lint the project on standard input. -/
def main (arguments : List String) : IO UInt32 := do
  let environment ← processEnvironment
  let data ← readAll (← IO.getStdin) .empty
  let (ending, _) := (Command.program environment arguments).run (archivedProject data)
  (← IO.getStdout).putStr ending.shown.stdout
  (← IO.getStderr).putStr ending.shown.stderr
  return UInt32.ofNat ending.code
