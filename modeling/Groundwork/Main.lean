import Groundwork.CommandLine.Program
import Groundwork.Plugin.Container.Model
import Std.Time.DateTime.Timestamp

/-!
# The program on a system

Answers what the program asks with files, the clock, and the streams of the process.  It runs without a
container program, so that whatever needs a plugin fails when the plugin is to be started.
-/

namespace Groundwork.Main

/-! ### Refusals -/

/-- The number of a refusal; some calls give it with the other sign. -/
def refusalNumber (number : UInt32) : Nat :=
  if number.toNat < UInt32.size / 2 then number.toNat else UInt32.size - number.toNat

/-- The refusal that has a number. -/
def refusal (number : UInt32) (details : String) : FileError :=
  match refusalNumber number with
  | 2 => .notFound
  | 13 => .denied
  | 17 => .alreadyExists
  | 20 => .notDirectory
  | 21 => .isDirectory
  | 40 => .tooManyLinks
  | n => .other s!"{details} (os error {n})"

/-- Why the system refuses. -/
def whyRefused : IO.Error → FileError
  | .noFileOrDirectory _ n d | .interrupted _ n d => refusal n d
  | .alreadyExists _ n d | .permissionDenied _ n d | .inappropriateType _ n d | .invalidArgument _ n d
  | .resourceExhausted _ n d | .noSuchThing _ n d => refusal n d
  | .otherError n d | .resourceBusy n d | .resourceVanished n d | .unsupportedOperation n d
  | .hardwareFault n d | .unsatisfiedConstraints n d | .illegalOperation n d | .protocolError n d
  | .timeExpired n d => refusal n d
  | .unexpectedEof => .other "unexpected end of file"
  | .userError _ => .notText

/-- What an action comes to, refusals included. -/
def attempt (act : IO α) : IO (Except FileError α) := do
  try
    return .ok (← act)
  catch e =>
    return .error (whyRefused e)

/-- Whether an action is possible. -/
def isPossible (act : IO α) : IO Bool := return (← attempt act).toBool

/-! ### Answers -/

/-- Whether a path leads to a directory: it does if its own place can be found in it. -/
def isDirectory (path : String) : IO Bool := isPossible (IO.FS.realPath (path ++ "/."))

/-- Answers a call to the file system. -/
def answerFile {α : Type} (q : FileCall α) : IO α :=
  match q with
  | .readText path => attempt (IO.FS.readFile path)
  | .writeText path text => attempt (IO.FS.writeFile path text)
  | .createText path text => attempt do
      let file ← IO.FS.Handle.mk path .writeNew
      file.putStr text
  | .remove path => attempt (IO.FS.removeFile path)
  | .rename source target => attempt (IO.FS.rename source target)
  | .makeDirectories path => attempt (if path.isEmpty then pure () else IO.FS.createDirAll path)
  | .pathExists path => isPossible (IO.FS.realPath path)
  | .isFile path => return (← isPossible (IO.FS.realPath path)) && !(← isDirectory path)
  | .isDirectory path => isDirectory path

/-- Answers a call to the terminal. -/
def answerTerminal {α : Type} (q : TerminalCall α) : IO α :=
  match q with
  | .print text => do
      let out ← IO.getStdout
      out.putStr text
      out.flush
  | .complain text => do
      let faults ← IO.getStderr
      faults.putStr text
      faults.flush
  | .readLine => do (← IO.getStdin).getLine

/-- The time. -/
def clock : IO Instant := do
  let nanos := (← Std.Time.Timestamp.now).toNanosecondsSinceUnixEpoch.val
  return ⟨nanos.fdiv 1000000000, (nanos.fmod 1000000000).toNat⟩

/-- A random name: groups of hexadecimal digits, of which two tell how the name was made. -/
def freshId : IO String := do
  let bytes := (← IO.getRandomBytes 16).toList
  let marked := bytes.mapIdx fun i b =>
    if i = 6 then b % 16 + 64 else if i = 8 then b % 64 + 128 else b
  let digits := marked.flatMap fun b => [Nat.digitChar (b.toNat / 16), Nat.digitChar (b.toNat % 16)]
  let group (start length : Nat) : String := String.ofList ((digits.drop start).take length)
  return "-".intercalate [group 0 8, group 8 4, group 12 4, group 16 4, group 20 12]

/-- The name of this machine and the number of this process. -/
def holder : IO String := do
  let host := (← attempt (IO.FS.readFile "/proc/sys/kernel/hostname")).toOption.getD "unknown"
  let place := (← attempt (IO.FS.realPath "/proc/self")).toOption.elim "" toString
  return Text.trimString host ++ "-" ++ (File.name? place).getD "0"

/-- Answers an ambient question. -/
def answerAmbient {α : Type} (q : Ambient α) : IO α :=
  match q with
  | .clock => clock
  | .freshId => freshId
  | .holder => holder
  | .note _ => pure ()

/-- Runs a program. -/
def run (p : TerminalProgram α) : IO α :=
  p.run fun q =>
    match q with
    | .first q => answerAmbient q
    | .second (.first q) => answerTerminal q
    | .second (.second q) => answerFile q

/-- The variables of the process. -/
def processVariables : IO (Table String) := do
  let text := (← attempt (IO.FS.readFile "/proc/self/environ")).toOption.getD ""
  return (Text.splitOn '\x00' text.toList).filterMap fun entry =>
    (Text.cut ['='] entry).map fun p => (String.ofList p.1, String.ofList p.2)

end Groundwork.Main

/-- Runs the program on the words of the command line. -/
def main (words : List String) : IO UInt32 := do
  let surroundings : Groundwork.CommandLine.Surroundings :=
    ⟨← Groundwork.Main.processVariables, .absent, fun _ => none⟩
  let code ← Groundwork.Main.run (Groundwork.CommandLine.program surroundings words)
  return UInt32.ofNat code
