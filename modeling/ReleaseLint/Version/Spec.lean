/-
# Which version of a tool is asked for

A version specification is the word `latest` or a semantic version, possibly with
letters `v` in front.  A version is outdated when a recommended one has a larger
major or minor number.
-/

import ReleaseLint.Text.Blank
import ReleaseLint.Version.Semantic

namespace ReleaseLint
namespace Version

/-- The specification that stands for the recommended version. -/
def latest : String := "latest"

/-- The version that a text writes behind any letters `v`. -/
def read? (s : String) : Option Semantic :=
  Semantic.ofText? (Text.dropLeadingV s)

/-- Whether a text asks for a version. -/
def isSpec (s : String) : Bool :=
  s == latest || (read? s).isSome

/-- Whether `configured` is behind `recommended` by a minor or major number.  A text
that is no version is never outdated, and never outdates another. -/
def isOutdated (configured recommended : String) : Bool :=
  match read? configured, read? recommended with
  | some c, some r =>
    if c.compare r != .lt then false
    else c.major < r.major || (c.major == r.major && c.minor < r.minor)
  | _, _ => false

end Version
end ReleaseLint
