/-
# What a command says

A command reports events; a terminal shows them.

| event | stream | in quiet mode |
| --- | --- | --- |
| output | standard output | shown |
| error | standard error | shown |
| message, success, warning | standard error | hidden |
-/

import ReleaseLint.Report.Style

namespace ReleaseLint

/-- How much a command says. -/
inductive Mode where
  | verbose
  | normal
  | quiet
deriving DecidableEq, Repr, Inhabited

/-- Whether a mode shows more than errors and output. -/
def Mode.showsStatus (m : Mode) : Bool :=
  m != .quiet

/-- Something that a command says. -/
inductive Event where
  | message (text : String)
  | success (text : String)
  | warning (text : String)
  | error (text : String)
  | output (text : String)
deriving DecidableEq, Repr, Inhabited

/-- What a terminal shows on its two streams. -/
structure Shown where
  stdout : String
  stderr : String
deriving DecidableEq, Repr, Inhabited

namespace Shown

/-- Nothing is shown. -/
def nothing : Shown := ⟨"", ""⟩

/-- Show an event. -/
def event (mode : Mode) (theme : Theme) (s : Shown) : Event → Shown
  | .output text => { s with stdout := s.stdout ++ text }
  | .error text => line (theme.errorText text)
  | .message text => status text
  | .success text => status (theme.successText text)
  | .warning text => status (theme.warningText text)
where
  /-- Show a line on standard error. -/
  line (text : String) : Shown := { s with stderr := s.stderr ++ text ++ "\n" }
  /-- Show a line on standard error unless only errors are shown. -/
  status (text : String) : Shown := if mode.showsStatus then line text else s

/-- Show events one after the other. -/
def events (mode : Mode) (theme : Theme) (events : List Event) : Shown :=
  events.foldl (event mode theme) nothing

end Shown
end ReleaseLint
