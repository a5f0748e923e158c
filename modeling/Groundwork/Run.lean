import Groundwork.Failure
import Groundwork.File.Path
import Groundwork.Infrastructure.Graph
import Groundwork.Plugin.Wire

/-!
# Runs

A run carries out a plan: it hands nodes to their plugins, several at a time, and writes into the graph what
comes back.  A node has its turn when all it depends on is complete.  The first failure keeps further nodes
from starting; calls in flight are still waited for, so that the graph tells what the plugins did.

A run is a machine with two moves: `settle` starts what can be started, and `finish` takes in what one call
returned.  Which call returns when is not for the run to decide; `execute` leaves that to a scheduler.

Main statements: no more calls are in flight than the limit allows (`length_inFlight_takeTurns`), and a run
that has failed starts nothing (`dispatch_of_failure`).
-/

namespace Groundwork

/-- How to run. -/
structure RunOptions where
  /-- The greatest number of calls in flight; none counts as one. -/
  concurrency : Nat
  /-- The directory that images written as relative paths are below. -/
  directory : Option String
  deriving DecidableEq, Repr, Inhabited

namespace RunOptions

/-- One call at a time. -/
def single : RunOptions := ⟨1, none⟩

/-- The number of calls that may be in flight. -/
def limit (o : RunOptions) : Nat := max o.concurrency 1

/-- The image to ask the plugin for. -/
def image (o : RunOptions) (image : String) : String :=
  let isRelative := Text.startsWith ['.', '/'] image.toList || Text.startsWith ['.', '.', '/'] image.toList
  match o.directory with
  | some directory => if isRelative then File.join directory image else image
  | none => image

end RunOptions

/-- A call to a plugin. -/
structure Call where
  action : Action
  plugin : PluginKind
  request : ApplyRequest
  deriving DecidableEq, Repr, Inhabited

/-- The id of the node that a call is about. -/
def Call.id (c : Call) : String := c.request.pluginId

/-- How a call comes to its end. -/
inductive Outcome where
  | returned (response : ApplyResponse)
  | failed (e : PluginError)
  /-- The call broke off without an answer. -/
  | broken (message : String)
  deriving DecidableEq, Repr, Inhabited

/-- What came of one node. -/
structure NodeResult where
  id : String
  action : Action
  /-- The message of the plugin, if it failed. -/
  error : Option String
  deriving DecidableEq, Repr, Inhabited

/-- Whether the plugin succeeded. -/
def NodeResult.success (r : NodeResult) : Bool := r.error.isNone

/-- What happens in a run. -/
inductive RunEvent where
  | started (call : Call)
  /-- A node needs no change. -/
  | unchanged (id : String)
  | finished (result : NodeResult)
  deriving DecidableEq, Repr, Inhabited

/-- How far a run has come. -/
structure Run where
  graph : Infrastructure
  /-- The calls that have not returned, in the order in which they were made. -/
  inFlight : List Call
  /-- The failure that was noticed first. -/
  failure : Option RunError
  /-- What has happened, in order. -/
  events : List RunEvent
  /-- The graph after each change. -/
  snapshots : List Infrastructure

namespace Run

/-- A run that has not done anything. -/
def start (g : Infrastructure) : Run := ⟨g, [], none, [], []⟩

/-- Whether a node is with its plugin. -/
def isInFlight (r : Run) (id : String) : Bool := r.inFlight.any (·.id = id)

/-- What came of the nodes, in the order in which their calls returned. -/
def results (r : Run) : List NodeResult :=
  r.events.filterMap fun
    | .finished result => some result
    | _ => none

/-- The calls, in the order in which they were made. -/
def calls (r : Run) : List Call :=
  r.events.filterMap fun
    | .started call => some call
    | _ => none

/-! ### Starting -/

/-- The call for a node. -/
def callFor (o : RunOptions) (n : InfraNode) : Call :=
  { action := n.action
    plugin := n.plugin
    request := {
      pluginId := n.id
      image := o.image n.image
      inputs := inputPairs (Template.unescape n.inputs)
      state := n.state
      destroy := n.action = .delete } }

/-- A node as it goes to its plugin: with outputs in the place of references, unless it is to be deleted. -/
def prepare (outputs : Table Value) (now : Instant) (n : InfraNode) : Except RunError InfraNode :=
  if n.action = .delete then .ok { n with status := n.status.moveTo .destroying none now }
  else
    match Reference.resolve outputs n.inputs with
    | .error e => .error (.unresolvedReference n.id e)
    | .ok inputs => .ok { n with inputs, status := n.status.moveTo .applying none now }

/-- The turn of a node: if it needs no change it is complete at once, else its plugin is called. -/
def turn (o : RunOptions) (outputs : Table Value) (now : Instant) (r : Run) (n : InfraNode) :
    Except RunError Run :=
  if n.action = .noOp then
    .ok { r with
      graph := r.graph.insertNode { n with status := .completeAt now }
      events := r.events ++ [.unchanged n.id] }
  else
    match prepare outputs now n with
    | .error e => .error e
    | .ok n => .ok { r with
        graph := r.graph.insertNode n
        inFlight := r.inFlight ++ [callFor o n]
        events := r.events ++ [.started (callFor o n)] }

/-- The turns of several nodes, until the limit is reached or a reference cannot be resolved. -/
def takeTurns (o : RunOptions) (outputs : Table Value) (now : Instant) : List InfraNode → Run → Run
  | [], r => r
  | n :: rest, r =>
      if o.limit ≤ r.inFlight.length then r
      else
        match turn o outputs now r n with
        | .ok next => takeTurns o outputs now rest next
        | .error e => { r with failure := some e }

/-- Whether anything has happened between two stages of a run. -/
def progressed (r next : Run) : Bool := r.events.length < next.events.length

/-- Gives every node its turn that is ready and not in flight.  References see the outputs that are there
at the beginning. -/
def dispatch (o : RunOptions) (now : Instant) (r : Run) : Run :=
  if r.failure.isSome then r
  else
    let waiting := (Infrastructure.ready r.graph).filter fun n => !r.isInFlight n.id
    let next := takeTurns o (Infrastructure.outputs r.graph) now waiting r
    if next.failure.isNone && progressed r next then
      { next with snapshots := next.snapshots ++ [next.graph] }
    else next

/-- Dispatches until a call is in flight or nothing more happens; each round completes a node at least. -/
def settleFor (o : RunOptions) (now : Instant) : Nat → Run → Run
  | 0, r => r
  | rounds + 1, r =>
      let next := dispatch o now r
      if next.inFlight.isEmpty && next.failure.isNone && progressed r next then settleFor o now rounds next
      else next

/-- Starts what can be started. -/
def settle (o : RunOptions) (now : Instant) (r : Run) : Run := settleFor o now (r.graph.size + 1) r

/-! ### Finishing -/

/-- Changes the node of a call and takes note of the result. -/
def record (r : Run) (c : Call) (error : Option String) (f : InfraNode → InfraNode)
    (h : ∀ n, (f n).id = n.id) : Run :=
  let graph := r.graph.update c.id f h
  { r with
    graph
    inFlight := r.inFlight.filter (·.id ≠ c.id)
    events := r.events ++ [.finished ⟨c.id, c.action, error⟩]
    snapshots := r.snapshots ++ [graph] }

/-- Takes in what a call returned.  A call that broke off ends the run on the spot. -/
def finish (now : Instant) (c : Call) (outcome : Outcome) (r : Run) : Run :=
  match outcome with
  | .returned response =>
      r.record c none (fun n => { n with
        outputs := some response.outputs
        state := response.state
        status := n.status.moveTo .complete none now }) fun _ => rfl
  | .failed e =>
      let next := r.record c (some e.message)
        (fun n => { n with status := n.status.moveTo .error (some e.message) now }) fun _ => rfl
      { next with failure := next.failure.or (some (.nodeFailed c.id e.message)) }
  | .broken message => { r with inFlight := [], failure := some (.taskFailed message) }

/-! ### Running to the end -/

/-- Which call in flight returns next, counted from the one made first, when, and what it returns. -/
structure Arrival where
  index : Nat
  time : Instant
  outcome : Outcome
  deriving Repr

/-- Decides in what order calls return, and what. -/
abbrev Scheduler (σ : Type) := σ → List Call → Arrival × σ

/-- Waits for one call after the other, and starts after each what can be started. -/
def drive (o : RunOptions) (scheduler : Scheduler σ) : Nat → Run → σ → Run × σ
  | 0, r, s => (r, s)
  | arrivals + 1, r, s =>
      match r.inFlight with
      | [] => (r, s)
      | first :: rest =>
          let (a, s) := scheduler s (first :: rest)
          let call := (first :: rest).getD a.index first
          drive o scheduler arrivals (settle o a.time (finish a.time call a.outcome r)) s

/-- Carries out a plan.  Every node is called at most once, so there are no more arrivals than nodes. -/
def execute (o : RunOptions) (scheduler : Scheduler σ) (now : Instant) (g : Infrastructure) (s : σ) :
    Run × σ :=
  drive o scheduler g.size (settle o now (start g)) s

/-- The end of a run: what came of the nodes, or why it failed. -/
def outcome (r : Run) : Except RunError (List NodeResult) :=
  match r.failure with
  | some e => .error e
  | none =>
      let pending := (r.graph.nodes.filter (!·.isComplete)).map (·.id)
      if pending.isEmpty then .ok r.results else .error (.invariantViolation pending)

/-! ### Small facts -/

theorem limit_pos (o : RunOptions) : 0 < o.limit := by
  unfold RunOptions.limit
  omega

theorem length_inFlight_turn {o : RunOptions} {outputs : Table Value} {now : Instant} {r next : Run}
    {n : InfraNode} (h : turn o outputs now r n = .ok next) :
    next.inFlight.length ≤ r.inFlight.length + 1 := by
  unfold turn at h
  split at h
  · cases h
    simp
  · split at h <;> cases h
    simp

theorem length_inFlight_takeTurns {o : RunOptions} {outputs : Table Value} {now : Instant}
    (l : List InfraNode) {r : Run} (h : r.inFlight.length ≤ o.limit) :
    (takeTurns o outputs now l r).inFlight.length ≤ o.limit := by
  induction l generalizing r with
  | nil => exact h
  | cons n l ih =>
    unfold takeTurns
    split
    · exact h
    · split
      · rename_i next e
        have := length_inFlight_turn e
        exact ih (by omega)
      · exact h

theorem dispatch_of_failure {o : RunOptions} {now : Instant} {r : Run} (h : r.failure.isSome = true) :
    dispatch o now r = r := by
  simp [dispatch, h]

end Run

end Groundwork
