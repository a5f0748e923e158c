import Groundwork.Plan.Unchanged

/-!
# Plans

A plan says how to get from the graph that was applied last to one that is wanted.  Nodes are matched by
key.  A match that lives is updated in place; a key without one is created, in the other color if an
earlier incarnation is still around.  What is no longer wanted is deleted, dependents before what they
depend on.  Updates that change nothing become no-ops.

Main statements: every wanted node has a place in the plan under its key (`key_next`).
-/

namespace Groundwork

namespace Plan

/-- The incarnation of a key that a wanted node follows: the first that is not being deleted, else the first
of all. -/
def previous? (before : Infrastructure) (key : Key) : Option InfraNode :=
  let incarnations := before.nodes.filter (·.key = key)
  (incarnations.find? (·.action ≠ .delete)).or incarnations.head?

/-- Whether an incarnation must be followed by a new one: it is being deleted, or was never finished. -/
def mustRecreate (prev : InfraNode) : Bool :=
  prev.action = .delete || (prev.action = .create && !prev.isComplete)

/-- What a wanted node becomes in the plan. -/
def next (before : Infrastructure) (n : InfraNode) : InfraNode :=
  let fresh := { n with status := .pending, outputs := none }
  match previous? before n.key with
  | none => { fresh with action := .create }
  | some prev =>
      if mustRecreate prev then
        { fresh with
          action := .create
          color := prev.color.flipped
          -- A creation that failed half way may have left a state behind.
          state := if prev.action = .create then prev.state else n.state }
      else { fresh with action := .update, color := prev.color, state := prev.state }

/-- The candidate for a no-op that a wanted node is, if it is an update of a complete node. -/
def candidate? (before : Infrastructure) (n : InfraNode) : Option Candidate :=
  match previous? before n.key with
  | none => none
  | some prev =>
      if !mustRecreate prev && prev.isComplete then
        some ⟨(next before n).id, nodeFingerprint prev, prev.outputs, prev.state⟩
      else none

/-- The names that wanted nodes get in the plan. -/
def newIds (before after : Infrastructure) : Table String :=
  Table.ofPairs (after.nodes.map fun n => (n.id, (next before n).id))

/-- The nodes that live on or come new, with their dependencies. -/
def live (before after : Infrastructure) : Infrastructure :=
  Infrastructure.renameNodes (newIds before after)
    ((Graph.empty.insertNodes (after.nodes.map (next before))).insertEdges after.edges)

/-- Whether a node that was applied has to be deleted: it is no completed deletion, and either it was being
deleted already, or its key is no longer wanted and its creation had begun. -/
def isDoomed (after : Infrastructure) (prev : InfraNode) : Bool :=
  let wanted := after.nodes.any (·.key = prev.key)
  if prev.action = .delete then !prev.isComplete
  else !wanted && !(prev.action = .create && prev.status.phase = .pending)

/-- The deletion of a node. -/
def deletion (prev : InfraNode) : InfraNode := { prev with action := .delete, status := .pending }

/-- A plan in the making, with the nodes whose deletion it took in. -/
structure Draft where
  graph : Infrastructure
  deleted : List InfraNode
  /-- The ids of deletions left out because a live node has the id. -/
  skipped : List String

/-- Takes in the deletion of a node, unless its id is taken. -/
def Draft.delete (d : Draft) (prev : InfraNode) : Draft :=
  if d.graph.contains prev.id then { d with skipped := d.skipped ++ [prev.id] }
  else { d with graph := d.graph.insertNode (deletion prev), deleted := d.deleted ++ [prev] }

/-- The live nodes and all deletions. -/
def draft (before after : Infrastructure) : Draft :=
  (before.nodes.filter (isDoomed after)).foldl Draft.delete ⟨live before after, [], []⟩

/-- What a deletion waits for: what a deletion under way waited for already; and for a new one, all that
depended on the node. -/
def deletionEdges (before : Infrastructure) (prev : InfraNode) : List Edge :=
  if prev.action = .delete then before.edges.filter (·.source = prev.id)
  else (before.edges.filter (·.target = prev.id)).map Edge.reversed

/-- The plan before unchanged nodes are found. -/
def skeleton (before after : Infrastructure) : Infrastructure :=
  let d := draft before after
  d.graph.insertEdges
    ((d.deleted.flatMap (deletionEdges before)).filter fun e => d.graph.contains e.target)

/-- The plan with the record of what was found unchanged. -/
def search (now : Instant) (before after : Infrastructure) : Search :=
  findUnchanged now (skeleton before after) (after.nodes.filterMap (candidate? before))

theorem key_next (before : Infrastructure) (n : InfraNode) : (next before n).key = n.key := by
  unfold next
  dsimp only
  split
  · rfl
  · split <;> rfl

/-! ### Summaries -/

/-- How many nodes of a plan have each action. -/
structure Summary where
  creates : Nat
  updates : Nat
  deletes : Nat
  noOps : Nat
  deriving DecidableEq, Repr, Inhabited

namespace Summary

/-- The summary of a plan. -/
def ofGraph (g : Infrastructure) : Summary :=
  let count (a : Action) := g.nodes.countP (·.action = a)
  ⟨count .create, count .update, count .delete, count .noOp⟩

/-- The number of nodes that a plan changes. -/
def changes (s : Summary) : Nat := s.creates + s.updates + s.deletes

/-- Whether a plan changes anything. -/
def hasChanges (s : Summary) : Bool := 0 < s.changes

/-- The text of a summary. -/
def render (s : Summary) : String :=
  if s.hasChanges then
    "Plan: " ++ toString s.creates ++ " to create, " ++ toString s.updates ++ " to update, "
      ++ toString s.deletes ++ " to delete, " ++ toString s.noOps ++ " unchanged"
  else "No changes required"

end Summary

end Plan

/-- The plan from the graph that was applied last to the graph that is wanted. -/
def plan (now : Instant) (before after : Infrastructure) : Infrastructure := (Plan.search now before after).graph

end Groundwork
