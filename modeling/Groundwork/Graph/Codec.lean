import Groundwork.Data.Decode
import Groundwork.Graph.Basic

/-!
# Graphs as documents

A graph is written as a list of nodes and a list of edges, in order.  A document that repeats an id or an
edge, or joins a node to itself, is read by the rules of insertion.
-/

namespace Groundwork

/-- An edge as a document. -/
def Edge.toValue (e : Edge) : Value := .obj [("from", .str e.source), ("to", .str e.target)]

/-- Reads an edge. -/
def Edge.ofValue? (v : Value) : Option Edge := do
  let t ← Decode.parts ["from", "to"] v
  return ⟨← Decode.needed Decode.text t "from", ← Decode.needed Decode.text t "to"⟩

namespace Graph

variable {N : Type} [Identified N]

/-- A graph as a document. -/
def toValue (node : N → Value) (g : Graph N) : Value :=
  .obj [("nodes", .arr (g.nodes.map node)), ("edges", .arr (g.edges.map Edge.toValue))]

/-- Reads a graph. -/
def ofValue? (node : Value → Option N) (v : Value) : Option (Graph N) := do
  let t ← Decode.parts ["nodes", "edges"] v
  let nodes ← Decode.defaulted [] (Decode.list node) t "nodes"
  let edges ← Decode.defaulted [] (Decode.list Edge.ofValue?) t "edges"
  return ofParts nodes edges

end Graph

end Groundwork
