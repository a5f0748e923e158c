import Groundwork.Json.Writer
import Groundwork.Time.Instant

/-!
# Log lines

A line of the log has a level and a text.  It is written either for people, with the level in five columns,
or for programs, as an object.
-/

namespace Groundwork

/-- How grave a line is, from the gravest down. -/
inductive Level where
  | error | warn | info | debug | trace
  deriving DecidableEq, Repr, Inhabited

namespace Level

/-- The name of a level. -/
def name : Level → String
  | .error => "ERROR"
  | .warn => "WARN"
  | .info => "INFO"
  | .debug => "DEBUG"
  | .trace => "TRACE"

/-- How much has to be asked for before lines of a level are shown. -/
def rank : Level → Nat
  | .error => 1
  | .warn => 2
  | .info => 3
  | .debug => 4
  | .trace => 5

end Level

/-- A line of the log. -/
structure LogLine where
  level : Level
  text : String
  deriving DecidableEq, Repr, Inhabited

namespace LogLine

/-- The line for people. -/
def render (time : Instant) (l : LogLine) : String :=
  let level := l.level.name
  time.render ++ " " ++ String.ofList (List.replicate (5 - level.length) ' ') ++ level ++ " " ++ l.text

/-- The line for programs. -/
def renderJson (time : Instant) (l : LogLine) : String :=
  Json.compact (.obj
    [("timestamp", .str time.render), ("level", .str l.level.name),
     ("fields", .obj [("message", .str l.text)])])

end LogLine

end Groundwork
