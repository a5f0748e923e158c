import Groundwork.Graph.Codec
import Groundwork.Graph.Order
import Groundwork.Key

/-!
# App graphs: what an application needs

A node of an app graph is a resource that an application asks for, such as a database or a service.  Its
inputs may refer to outputs of other nodes.
-/

namespace Groundwork

/-- A resource that an application asks for. -/
structure AppNode where
  key : Key
  inputs : Value
  deriving DecidableEq, Repr, Inhabited

namespace AppNode

/-- The id of a node. -/
def id (n : AppNode) : String := n.key.id

instance : Identified AppNode := ⟨AppNode.id⟩

/-- The view of a node that guards and hooks have. -/
def context (n : AppNode) : Value :=
  .obj
    [("component", Value.ofOption .str n.key.component),
     ("environment", Value.ofOption .str n.key.environment),
     ("id", .str n.id),
     ("inputs", n.inputs),
     ("name", .str n.key.name),
     ("type", .str n.key.resourceType)]

/-- A node as a document. -/
def toValue (n : AppNode) : Value :=
  .obj ([("name", .str n.key.name), ("type", .str n.key.resourceType)]
    ++ Encode.optional "component" .str n.key.component
    ++ Encode.optional "environment" .str n.key.environment
    ++ [("inputs", n.inputs)])

/-- Reads a node. -/
def ofValue? (v : Value) : Option AppNode := do
  let t ← Decode.parts ["name", "type", "component", "environment", "inputs"] v
  return ⟨← Key.ofFields? t, (Decode.whole t "inputs").sorted⟩

end AppNode

/-- The graph of the resources of an application. -/
abbrev AppGraph := Graph AppNode

/-- Reads an app graph. -/
def AppGraph.ofValue? (v : Value) : Option AppGraph := Graph.ofValue? AppNode.ofValue? v

end Groundwork
