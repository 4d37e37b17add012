/-
# Findings

What a linter has to say about a resource: a severity, the file that is meant, which
may be left open, and a message.  A tally counts findings by severity.
-/

namespace ReleaseLint

/-- How serious a finding is. -/
inductive Severity where
  | error
  | warning
  | info
deriving DecidableEq, Repr, Inhabited

namespace Severity

/-- The tag of a severity in output. -/
def tag : Severity → String
  | error => "ERROR"
  | warning => "WARNING"
  | info => "INFO"

/-- Every severity, the most serious one first. -/
def all : List Severity := [error, warning, info]

/-- The severity with a tag. -/
def ofTag? (s : String) : Option Severity :=
  all.find? (·.tag == s)

theorem ofTag?_tag (s : Severity) : ofTag? s.tag = some s := by
  cases s <;> rfl

end Severity

/-- One finding of a linter; the path is empty when none was named. -/
structure Finding where
  severity : Severity
  path : String
  message : String
deriving DecidableEq, Repr, Inhabited

/-- The number of findings of each severity. -/
structure Tally where
  errors : Nat
  warnings : Nat
  infos : Nat
deriving DecidableEq, Repr, Inhabited

namespace Tally

/-- No findings. -/
def zero : Tally := ⟨0, 0, 0⟩

/-- The tally of two lists of findings together. -/
def add (a b : Tally) : Tally :=
  ⟨a.errors + b.errors, a.warnings + b.warnings, a.infos + b.infos⟩

instance : Add Tally := ⟨add⟩

/-- The number of findings with a severity. -/
def count (s : Severity) (findings : List Finding) : Nat :=
  findings.countP (·.severity == s)

/-- The tally of a list of findings. -/
def ofFindings (findings : List Finding) : Tally :=
  ⟨count .error findings, count .warning findings, count .info findings⟩

end Tally
end ReleaseLint
