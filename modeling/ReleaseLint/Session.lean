/-
# Sessions

A session works on a file tree, asks servers and starts programs.  What servers and
programs do comes from outside: a `World` answers the n-th request and the n-th call.
The session keeps the tree as it has become, and a log of both.

| access | changes |
| --- | --- |
| `ask` | the log of requests |
| `call` | the log of calls, if the program starts |
| `write` | the tree |

A session that fails keeps what it has done.
-/

import ReleaseLint.Error
import ReleaseLint.Tool.Recommended

namespace ReleaseLint

/-- What comes back from a request. -/
inductive Reply where
  | unreachable
  | response (status : Nat) (body : ByteArray)

/-- An argument of a program: a text, or a file that holds the values of a mapping. -/
inductive Argument where
  | text (s : String)
  | values (entries : List (Yaml.Value × Yaml.Value))
deriving Repr, Inhabited

/-- The text of an argument that is one. -/
def Argument.text? : Argument → Option String
  | text s => some s
  | values _ => none

/-- What a program leaves behind. -/
structure Exit where
  stdout : ByteArray
  stderr : ByteArray
  success : Bool

/-- A call of a program. -/
structure Call where
  binary : Path
  arguments : List Argument
deriving Repr, Inhabited

/-- A request and what came back. -/
structure Request where
  url : String
  reply : Reply

/-- What servers answer and what programs do. -/
structure World where
  reply : (number : Nat) → (url : String) → Reply
  run : (number : Nat) → (program : ByteArray) → List Argument → Except SystemFault Exit

/-- A world without servers, in which no file is a program. -/
def World.silent : World where
  reply _ _ := .unreachable
  run _ _ _ := .error .execFormat

/-- The state of a session. -/
structure Machine where
  world : World
  workspace : Workspace
  requests : List Request
  calls : List Call
  recommended : Option Tool.Recommended

/-- A machine on which nothing has been done. -/
def Machine.fresh (world : World) (workspace : Workspace) : Machine :=
  ⟨world, workspace, [], [], none⟩

/-- A computation of a session. -/
abbrev Session := ExceptT Error (StateM Machine)

namespace Session

/-- What a session comes to on a machine, and the machine behind it. -/
def runOn {α : Type} (x : Session α) (m : Machine) : Except Error α × Machine :=
  (ExceptT.run x).run m

/-- The outcome of a computation, failure included. -/
def attempt {α : Type} (x : Session α) : Session (Except Error α) :=
  ExceptT.mk do return .ok (← x.run)

/-- Fail as a computation without effects does. -/
def lift {α : Type} : Except Error α → Session α
  | .ok a => pure a
  | .error e => throw e

/-- The workspace as it is now. -/
def workspace : Session Workspace :=
  return (← get).workspace

/-- A value that only depends on the workspace. -/
def inspect {α : Type} (f : Workspace → Except Error α) : Session α := do
  lift (f (← workspace))

/-- Send a request. -/
def ask (url : String) : Session Reply := do
  let m ← get
  let reply := m.world.reply m.requests.length url
  set { m with requests := m.requests ++ [Request.mk url reply] }
  return reply

/-- Whether a text of a call holds a zero, which no program can be given. -/
def holdsZero (binary : Path) (arguments : List Argument) : Bool :=
  binary.text.toList.contains '\x00' || arguments.any (·.text?.any (·.toList.contains '\x00'))

/-- The number of bytes that no argument may reach. -/
def maxArgumentSize : Nat := 131072

/-- Start a program with arguments. -/
def call (binary : Path) (arguments : List Argument) : Session (Except SystemFault Exit) := do
  let m ← get
  if holdsZero binary arguments then return .error .zeroInArgument
  match m.workspace.node binary with
  | .error f => return .error f
  | .ok (.file data true) =>
    if arguments.any (·.text?.any (maxArgumentSize ≤ ·.utf8ByteSize)) then
      return .error .argumentTooLong
    match m.world.run m.calls.length data arguments with
    | .error f => return .error f
    | .ok exit =>
      set { m with calls := m.calls ++ [Call.mk binary arguments] }
      return .ok exit
  | .ok _ => return .error .permissionDenied

end Session
end ReleaseLint
