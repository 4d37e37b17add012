/-
# Platforms

The operating system and architecture a binary is made for, as archives and cache
directories name them.
-/

import ReleaseLint.Tool.Basic

namespace ReleaseLint

/-- An operating system and an architecture. -/
structure Platform where
  os : String
  arch : String
deriving DecidableEq, Repr, Inhabited

namespace Platform

/-- The platform with the names that compilers use: `macos` is called `darwin`, and
the architectures have their shorter names. -/
def ofTarget (os arch : String) : Platform where
  os := if os = "macos" then "darwin" else os
  arch :=
    if arch = "x86_64" then "amd64"
    else if arch = "aarch64" then "arm64"
    else if arch = "x86" then "386"
    else arch

/-- The name of a platform in paths. -/
def text (p : Platform) : String :=
  p.os ++ "-" ++ p.arch

/-- Whether binaries are those of Windows. -/
def isWindows (p : Platform) : Bool := p.os == "windows"

/-- Whether binaries are those of macOS. -/
def isDarwin (p : Platform) : Bool := p.os == "darwin"

/-- The end of the names of executables. -/
def suffix (p : Platform) : String :=
  if p.isWindows then ".exe" else ""

/-- Whether tools can be downloaded for a platform. -/
def isSupported (p : Platform) : Bool :=
  ["linux", "darwin", "windows"].contains p.os && ["amd64", "arm64"].contains p.arch

end Platform

/-- The file name of a tool's executable. -/
def Tool.binaryName (t : Tool) (p : Platform) : String :=
  t.name ++ p.suffix

end ReleaseLint
