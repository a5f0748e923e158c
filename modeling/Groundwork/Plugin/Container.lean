import Groundwork.Decimal.Reading
import Groundwork.Failure
import Groundwork.Plugin.Kind
import Groundwork.Text.Blank
import Groundwork.Text.Digit
import Groundwork.Text.Search

/-!
# Containers of plugins

A plugin runs in a container of its own.  It is ready when it has printed a certain line; the socket on
which it listens is then asked for.  Containers are run by a program of the system, which is known here only by
what it answers to its arguments.
-/

namespace Groundwork

/-- What came of running a container. -/
inductive Launch where
  /-- The program could not be started. -/
  | refused (message : String)
  /-- The container has printed this, and has ended or is still there. -/
  | printed (output : String) (ended : Bool)
  deriving DecidableEq, Repr, Inhabited

/-- The program that runs containers, by what it does with its arguments. -/
structure ContainerProgram where
  run : List String → Launch
  /-- The text that it prints, or why it could not be started. -/
  sockets : List String → Except String String

/-- A container to be run. -/
structure Container where
  plugin : PluginKind
  image : String
  /-- A directory that is to be seen inside. -/
  directory : Option String
  /-- For how many milliseconds to wait until the container is ready. -/
  patience : Nat
  deriving DecidableEq, Repr, Inhabited

namespace Container

/-- Two minutes. -/
def defaultPatience : Nat := 120000

/-- The socket on which a plugin listens inside its container. -/
def innerSocket : String := "50051"

/-- The line that tells that a plugin is ready. -/
def readyMark : String := "Started server on port"

/-- The name of the container of a plugin. -/
def nameOf (plugin : PluginKind) : String := "infragraph-" ++ plugin.name ++ "-plugin"

/-- The arguments that run a container. -/
def runArguments (c : Container) : List String :=
  let control := "/var/run/docker.sock"
  ["run", "--name", nameOf c.plugin, "--rm", "-p", innerSocket, "-v", control ++ ":" ++ control]
    ++ (match c.directory with
        | some d => ["-v", d ++ ":" ++ d]
        | none => [])
    ++ [c.image]

/-- The arguments that ask for the socket. -/
def socketArguments (c : Container) : List String := ["port", nameOf c.plugin]

/-- The lines that have been printed: the last one counts only once nothing more can follow. -/
def finishedLines (output : List Char) (ended : Bool) : List (List Char) :=
  let lines := Text.splitOn '\n' output
  if ended then lines else lines.dropLast

/-- The mark in front of the socket. -/
def socketMark : List Char := "-> 0.0.0.0:".toList

/-- The digits of the socket: up to five after the first mark that has any. -/
def socketDigits : List Char → Option (List Char)
  | [] => none
  | c :: cs =>
      match (Text.dropStart socketMark (c :: cs)).map fun rest => (rest.take 5).takeWhile Text.isDecimal with
      | some (d :: ds) => some (d :: ds)
      | _ => socketDigits cs

/-- The socket that an answer names.  Digits are recognised in any script but understood only in one. -/
def readSocket? (answer : String) : Option Nat := do
  let digits ← socketDigits answer.toList
  let socket := Decimal.digitsValue digits
  if digits.all Char.isDigit && socket < 65536 then some socket else none

/-- Why a container did not start. -/
def startError (c : Container) (message : String) : PluginError := .serverStart c.plugin.name message

/-- Asks for the socket of a container. -/
def discoverSocket (program : ContainerProgram) (c : Container) : Except PluginError Nat :=
  match program.sockets c.socketArguments with
  | .error m => .error (.unknownSocket c.plugin.name m)
  | .ok answer =>
      match readSocket? answer with
      | some socket => .ok socket
      | none =>
          .error (.unknownSocket c.plugin.name ("no host port in '" ++ Text.trimString answer ++ "'"))

/-- Runs a container: the commands carried out, and the socket once it is ready. -/
def start (program : ContainerProgram) (c : Container) : List (List String) × Except PluginError Nat :=
  match program.run c.runArguments with
  | .refused m => ([], .error (c.startError ("failed to spawn docker: " ++ m)))
  | .printed output ended =>
      if (finishedLines output.toList ended).any (Text.contains readyMark.toList) then
        ([c.runArguments, c.socketArguments], discoverSocket program c)
      else if ended then ([c.runArguments], .error (c.startError "container exited before it was ready"))
      else ([c.runArguments], .error (c.startError s!"not ready after {c.patience / 1000}s"))

end Container

/-- The address of a plugin that listens on a socket. -/
def pluginAddress (socket : Nat) : String := s!"ws://localhost:{socket}/ws"

end Groundwork
