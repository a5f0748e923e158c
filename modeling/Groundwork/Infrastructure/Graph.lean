import Groundwork.Graph.Order
import Groundwork.Infrastructure.Node

/-!
# Infrastructure graphs

The graph of the changes that a plan asks for.  `ready` lists the nodes whose turn has come, `outputs` the
results so far, and `renameNodes` gives other ids to the nodes that references and edges name.

Main statements: a node is ready exactly if it is not complete and all it depends on is (`mem_ready`).
-/

namespace Groundwork

/-- A graph of planned changes. -/
abbrev Infrastructure := Graph InfraNode

namespace Infrastructure

/-- An infrastructure graph as a document. -/
def toValue (g : Infrastructure) : Value := Graph.toValue InfraNode.toValue g

/-- Reads an infrastructure graph. -/
def ofValue? (v : Value) : Option Infrastructure := Graph.ofValue? InfraNode.ofValue? v

/-- Whether a node is there and complete. -/
def isCompleteId (g : Infrastructure) (id : String) : Bool := (g.node? id).any InfraNode.isComplete

/-- Whether all edges that leave a node lead to complete nodes. -/
def isUnblocked (g : Infrastructure) (id : String) : Bool :=
  (g.edges.filter (·.source = id)).all fun e => isCompleteId g e.target

/-- The order in which ready nodes take their turn: by environment and component. -/
def turnBefore (a b : InfraNode) : Bool :=
  (Key.compareOption a.key.environment b.key.environment).then
    (Key.compareOption a.key.component b.key.component) != .gt

/-- Puts a node in front of the first that does not take its turn before it. -/
def insertByTurn (n : InfraNode) : List InfraNode → List InfraNode
  | [] => [n]
  | m :: l => if turnBefore n m then n :: m :: l else m :: insertByTurn n l

/-- Nodes in the order of their turns; among equals the order of the list counts. -/
def byTurn (l : List InfraNode) : List InfraNode := l.foldr insertByTurn []

/-- The nodes that are not complete and do not wait for another, in the order of their turns. -/
def ready (g : Infrastructure) : List InfraNode :=
  byTurn (g.nodes.filter fun n => !n.isComplete && isUnblocked g n.id)

/-- The outputs of all complete nodes that have any, by id. -/
def outputs (g : Infrastructure) : Table Value :=
  (g.nodes.filter (·.isComplete)).filterMap fun n => n.outputs.map fun o => (n.id, o)

/-- The new name of an id. -/
def newName (names : Table String) (id : String) : String := (names.lookup id).getD id

/-- Renames the nodes that references and edges name, all at once.  The nodes keep their own ids. -/
def renameNodes (names : Table String) (g : Infrastructure) : Infrastructure :=
  if names.isEmpty then g
  else
    let renamed := g.mapNodes (fun n => { n with inputs := Reference.rename names n.inputs }) fun _ => rfl
    renamed.setEdges (g.edges.map fun e => ⟨newName names e.source, newName names e.target⟩)

theorem perm_insertByTurn (n : InfraNode) (l : List InfraNode) : (insertByTurn n l).Perm (n :: l) := by
  induction l with
  | nil => exact List.Perm.refl _
  | cons m l ih =>
    unfold insertByTurn
    split
    · exact List.Perm.refl _
    · exact (ih.cons m).trans (List.Perm.swap n m l)

theorem perm_byTurn (l : List InfraNode) : (byTurn l).Perm l := by
  induction l with
  | nil => exact List.Perm.refl _
  | cons n l ih => exact (perm_insertByTurn n (byTurn l)).trans (ih.cons n)

theorem mem_ready {g : Infrastructure} {n : InfraNode} :
    n ∈ ready g ↔ n ∈ g.nodes ∧ n.isComplete = false ∧ isUnblocked g n.id = true := by
  simp [ready, (perm_byTurn _).mem_iff]

end Infrastructure

end Groundwork
