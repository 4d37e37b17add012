/-
# Command line arguments

    program options* ( lint lintOptions* )?

| option | value | |
| --- | --- | --- |
| `-c`, `--config` | a path | the only config file |
| `-p`, `--project` | a path | the project, instead of the working directory |
| `-v`, `--verbose` | | a status line for each linter; not with `--quiet` |
| `-q`, `--quiet` | | only the report and errors |
| `--no-color`, `--debug` | | |
| `--format` | `human` or `json` | behind `lint` only |
| `--strict` | | behind `lint` only |
| `-h`, `--help`, `-V`, `--version` | | |

The others may stand before and behind `lint`; behind it they count for more.  A value
follows its option, or is attached to it: `--config=path`, `-cpath`, `-c=path`.  An
option comes once before and once behind `lint` at most.
-/

import ReleaseLint.Command.Lint
import ReleaseLint.Text.Similar

namespace ReleaseLint
namespace Command

/-- An option of the command line. -/
inductive Opt where
  | config
  | project
  | verbose
  | quiet
  | noColor
  | debug
  | format
  | strict
  | help
  | version
deriving DecidableEq, Repr, Inhabited

namespace Opt

/-- Every option. -/
def all : List Opt :=
  [config, project, verbose, quiet, noColor, debug, format, strict, help, version]

/-- The long name of an option. -/
def long : Opt → String
  | config => "config"
  | project => "project"
  | verbose => "verbose"
  | quiet => "quiet"
  | noColor => "no-color"
  | debug => "debug"
  | format => "format"
  | strict => "strict"
  | help => "help"
  | version => "version"

/-- The letter of an option. -/
def short? : Opt → Option Char
  | config => some 'c'
  | project => some 'p'
  | verbose => some 'v'
  | quiet => some 'q'
  | help => some 'h'
  | version => some 'V'
  | _ => none

/-- The name of the value of an option that takes one. -/
def value? : Opt → Option String
  | config => some "CONFIG"
  | project => some "PROJECT"
  | format => some "FORMAT"
  | _ => none

/-- Whether an option is for the command `lint` alone. -/
def forLint : Opt → Bool
  | format | strict => true
  | _ => false

end Opt

/-- Why arguments are refused: they do not fit together, or an option has no value or
a wrong one. -/
inductive Misuse where
  | usage (reason : String)
  | value (o : Opt) (given : String)
deriving DecidableEq, Repr, Inhabited

/-- What arguments ask for other than a run. -/
inductive Stop where
  | misuse (m : Misuse)
  | help
  | version (behindLint : Bool)
deriving DecidableEq, Repr, Inhabited

/-- What is set on one side of `lint`. -/
structure Given where
  config : Option String
  project : Option String
  format : Option Format
  flags : List Opt
deriving DecidableEq, Repr, Inhabited

/-- Nothing is set. -/
def Given.nothing : Given := ⟨none, none, none, []⟩

namespace Given

/-- Whether an option is set. -/
def has (g : Given) : Opt → Bool
  | .config => g.config.isSome
  | .project => g.project.isSome
  | .format => g.format.isSome
  | o => g.flags.contains o

/-- The formats by name. -/
def formats : List (String × Format) := [("human", .human), ("json", .json)]

/-- Set an option that takes a value. -/
def setValue (g : Given) (o : Opt) (value : String) : Except Stop Given :=
  if g.has o then .error (.misuse (.usage s!"--{o.long} cannot be used multiple times"))
  else
    match o with
    | .format =>
      match formats.find? (·.1 == value) with
      | some (_, f) => .ok { g with format := some f }
      | none => .error (.misuse (.value o value))
    | .project =>
      if value = "" then .error (.misuse (.value o "")) else .ok { g with project := some value }
    | _ =>
      if value = "" then .error (.misuse (.value o "")) else .ok { g with config := some value }

/-- Set an option that takes no value. -/
def setFlag (g : Given) (behindLint : Bool) (o : Opt) : Except Stop Given :=
  match o with
  | .help => .error .help
  | .version => .error (.version behindLint)
  | o =>
    if g.has o then .error (.misuse (.usage s!"--{o.long} cannot be used multiple times"))
    else .ok { g with flags := g.flags ++ [o] }

end Given

/-- The arguments read so far on one side of `lint`, with an option that still waits
for its value, or whose value is still to be looked at. -/
structure Reading where
  given : Given
  behindLint : Bool
  waiting : Option (Opt × Option String)
deriving Inhabited

namespace Reading

/-- Nothing is read. -/
def start (behindLint : Bool) : Reading := ⟨.nothing, behindLint, none⟩

/-- Look at the value of the option that waits. -/
def settle (r : Reading) : Except Stop Reading :=
  match r.waiting with
  | none => .ok r
  | some (o, none) => .error (.misuse (.value o ""))
  | some (o, some value) => do return { r with given := ← r.given.setValue o value, waiting := none }

/-- Whether an option may stand here. -/
def allows (r : Reading) (o : Opt) : Bool :=
  r.behindLint || !o.forLint

/-- Read an option, with the value that is attached to it. -/
def option (r : Reading) (o : Opt) (attached : Option String) : Except Stop Reading :=
  match o.value?, attached with
  | none, some value =>
    .error (.misuse (.usage s!"unexpected value '{value}' for --{o.long}"))
  | none, none => do
    let r ← r.settle
    return { r with given := ← r.given.setFlag r.behindLint o }
  | some _, some value => do
    let r ← r.settle
    return { r with given := ← r.given.setValue o value }
  | some _, none => do
    let r ← r.settle
    return { r with waiting := some (o, none) }

/-- The refusal of an argument that is not known. -/
def unexpected {α : Type} (argument : String) : Except Stop α :=
  .error (.misuse (.usage s!"unexpected argument '{argument}'"))

/-- Read an argument that begins with two hyphens, without them. -/
def long (r : Reading) (body : List Char) : Except Stop Reading :=
  let name := String.ofList (body.takeWhile (· != '='))
  let attached :=
    match body.dropWhile (· != '=') with
    | [] => none
    | _ :: value => some (String.ofList value)
  match Opt.all.find? fun o => o.long == name && r.allows o with
  | some o => r.option o attached
  | none => unexpected ("--" ++ name)

/-- Read the letters behind one hyphen. -/
def short (r : Reading) : List Char → Except Stop Reading
  | [] => .ok r
  | c :: rest =>
    match Opt.all.find? fun o => o.short? == some c with
    | none => unexpected (String.ofList ['-', c])
    | some o =>
      if o.value?.isSome then
        match rest with
        | [] => r.option o none
        | '=' :: value => r.option o (some (String.ofList value))
        | value => r.option o (some (String.ofList value))
      else do short (← r.option o none) rest

end Reading

/-- The arguments on one side of `lint`, and those behind it if it comes.  An option at
the end of the side still waits. -/
def readSide : Reading → List String → Except Stop (Reading × Option (List String))
  | r, [] => .ok (r, none)
  | r, a :: rest =>
    let waits : Bool := match r.waiting with | some (_, none) => true | _ => false
    if !waits && !r.behindLint && a = "lint" then .ok (r, some rest)
    else if !waits && !r.behindLint && a = "help" then
      if rest.isEmpty || rest = ["lint"] || rest = ["help"] then .error .help
      else Reading.unexpected (rest.headD "")
    else
      match a.toList with
      | ['-', '-'] =>
        match rest with
        | [] => .ok (r, none)
        | b :: _ => Reading.unexpected b
      | '-' :: '-' :: body =>
        match r.long body with
        | .ok r => readSide r rest
        | .error e => .error e
      | '-' :: c :: body =>
        match r.short (c :: body) with
        | .ok r => readSide r rest
        | .error e => .error e
      | _ =>
        match r.waiting with
        | some (o, none) => readSide { r with waiting := some (o, some a) } rest
        | _ => Reading.unexpected a

/-- What the arguments of the program come to. -/
structure Arguments where
  config : Option String
  project : Option String
  format : Format
  strict : Bool
  mode : Mode
  noColor : Bool
deriving DecidableEq, Repr, Inhabited

namespace Arguments

/-- What is set on one side at its end: the last value is looked at, and options that
exclude each other are refused. -/
def close (r : Reading) : Except Stop Given := do
  let g := (← r.settle).given
  if g.has .verbose && g.has .quiet then
    throw (.misuse (.usage "--verbose cannot be used with --quiet"))
  return g

/-- What is set before `lint` and behind it, together. -/
def combine (outer inner : Given) : Arguments :=
  let has (o : Opt) : Bool := outer.has o || inner.has o
  { config := inner.config.or outer.config
    project := inner.project.or outer.project
    format := inner.format.getD .human
    strict := inner.has .strict
    mode := if has .quiet then .quiet else if has .verbose then .verbose else .normal
    noColor := has .noColor }

/-- Read the arguments of the program.  The side behind `lint` is closed first. -/
def read (arguments : List String) : Except Stop Arguments := do
  let (outer, behind) ← readSide (.start false) arguments
  match behind with
  | none => return combine (← close outer) .nothing
  | some rest =>
    let (inner, _) ← readSide (.start true) rest
    let inner ← close inner
    return combine (← close outer) inner

end Arguments

/-- The name of the program. -/
def programName : String := "replicated-lint"

/-- How the program is used, line by line. -/
def usageLines : List String := [
  s!"Usage: {programName} [OPTIONS] [lint [--format <FORMAT>] [--strict]]",
  "",
  "Options:",
  "  -c, --config <CONFIG>    Path to a config file",
  "  -p, --project <PROJECT>  Path to the project directory",
  "  -v, --verbose            Show a status line per linter",
  "  -q, --quiet              Print only the report and errors",
  "      --no-color           Disable colored output",
  "      --debug              Enable debug logging",
  "  -h, --help               Print help",
  "  -V, --version            Print version"]

/-- How the program is used. -/
def usage : String :=
  String.join (usageLines.map (· ++ "\n"))

/-- The last line of a refusal. -/
def hint : String :=
  "For more information, try '--help'.\n"

/-- The wording of a refusal. -/
def Misuse.message : Misuse → String
  | usage reason => s!"error: {reason}\n\n{Command.usage}\n{hint}"
  | value o given =>
    let name := "--" ++ o.long ++ " <" ++ o.value?.getD "" ++ ">"
    let values := if o = .format then Given.formats.map (·.1) else []
    let list :=
      if values.isEmpty then ""
      else "\n  [possible values: " ++ ", ".intercalate values ++ "]"
    if given = "" then
      s!"error: a value is required for '{name}' but none was supplied{list}\n\n{hint}"
    else
      let tip :=
        match Text.mostSimilar? given values with
        | none => ""
        | some similar => s!"\n\n  tip: a similar value exists: '{similar}'"
      s!"error: invalid value '{given}' for '{name}'{list}{tip}\n\n{hint}"

end Command
end ReleaseLint
