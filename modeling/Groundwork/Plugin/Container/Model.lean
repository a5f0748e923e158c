import Groundwork.Data.Decode
import Groundwork.Failure
import Groundwork.Plugin.Container

/-!
# A model of the container program

What containers print and on which sockets they listen, by the names of their plugins.
-/

namespace Groundwork

/-- What a container does when it is started. -/
structure ContainerScript where
  output : String
  /-- What is answered when its socket is asked for. -/
  socket : String
  /-- Whether it ends after its output. -/
  ends : Bool
  deriving DecidableEq, Repr, Inhabited

namespace ContainerScript

/-- Reads a script; as a rule a container says that it has started, and goes on. -/
def ofValue? (v : Value) : Option ContainerScript := do
  let t ← v.fields?
  return {
    output := (← Decode.optional Decode.text t "out").getD (Container.readyMark ++ " 50051\n")
    socket := (← Decode.optional Decode.text t "port").getD ""
    ends := (← Decode.optional Decode.truth t "exit").getD false }

end ContainerScript

namespace ContainerProgram

/-- No container program at all. -/
def absent : ContainerProgram :=
  ⟨fun _ => .refused FileError.notFound.message, fun _ => .error FileError.notFound.message⟩

/-- The script of the container that an argument names. -/
def scriptAt (scripts : Table ContainerScript) (position : Nat) (arguments : List String) :
    Option ContainerScript :=
  PluginKind.all.findSome? fun k =>
    if arguments[position]? = some (Container.nameOf k) then scripts.lookup k.name else none

/-- The program that follows scripts; a container without one ends at once. -/
def scripted (scripts : Table ContainerScript) : ContainerProgram where
  run arguments :=
    match scriptAt scripts 2 arguments with
    | some s => .printed s.output s.ends
    | none => .printed "" true
  sockets arguments := .ok ((scriptAt scripts 1 arguments).elim "" (·.socket))

end ContainerProgram

end Groundwork
