import Groundwork.Graph.Codec
import Groundwork.Infrastructure.Status
import Groundwork.Key
import Groundwork.Plugin.Kind
import Groundwork.Reference

/-!
# Infrastructure nodes

A node stands for one incarnation of a module: what image to run with which inputs, the change planned for
it, how far the change has come, and what came of it.  Its id is that of its key with the color after an
at-sign; no update of the other fields changes it.
-/

namespace Groundwork

/-- One incarnation of a module. -/
structure InfraNode where
  key : Key
  color : Color
  /-- The app node whose hook asked for the module. -/
  appNode : Option String
  image : String
  plugin : PluginKind
  inputs : Value
  action : Action
  status : Status
  outputs : Option Value
  state : Option Value
  deriving DecidableEq, Repr, Inhabited

namespace InfraNode

/-- The id of the incarnation of a key with a color. -/
def idOf (key : Key) (color : Color) : String := key.id ++ "@" ++ color.name

/-- The id of a node. -/
def id (n : InfraNode) : String := idOf n.key n.color

instance : Identified InfraNode := ⟨InfraNode.id⟩

/-- A blue node that is to be created. -/
def create (key : Key) (image : String) (plugin : PluginKind) : InfraNode :=
  { key, color := .blue, appNode := none, image, plugin, inputs := .obj [], action := .create
    status := .pending, outputs := none, state := none }

/-- Whether the change of a node is done. -/
def isComplete (n : InfraNode) : Bool := n.status.phase = .complete

/-- The ids that the inputs of a node refer to, each once. -/
def referencedIds (n : InfraNode) : List String := ((Reference.all n.inputs).map (·.node)).eraseDups

/-- A node as a document. -/
def toValue (n : InfraNode) : Value :=
  .obj (n.key.toFields
    ++ [("color", .str n.color.name)]
    ++ Encode.optional "appNodeId" .str n.appNode
    ++ [("image", .str n.image), ("plugin", .str n.plugin.name), ("inputs", n.inputs),
        ("action", .str n.action.name), ("status", n.status.toValue)]
    ++ Encode.optional "outputs" (fun v => v) n.outputs
    ++ Encode.optional "state" (fun v => v) n.state)

/-- Reads a node. -/
def ofValue? (v : Value) : Option InfraNode := do
  let t ← Decode.fields
    (Key.fieldNames ++ ["color", "appNodeId", "image", "plugin", "inputs", "action", "status", "outputs",
      "state"]) v
  return {
    key := ← Key.ofFields? t
    color := ← Decode.defaulted .blue (Decode.variant Color.ofName?) t "color"
    appNode := ← Decode.optional Decode.text t "appNodeId"
    image := ← Decode.needed Decode.text t "image"
    plugin := ← Decode.defaulted .pulumi (Decode.variant PluginKind.ofName?) t "plugin"
    inputs := (Decode.whole t "inputs").sorted
    action := ← Decode.needed (Decode.variant Action.ofName?) t "action"
    status := ← Decode.defaulted .pending Status.ofValue? t "status"
    outputs := (Decode.wholeOption t "outputs").map Value.sorted
    state := (Decode.wholeOption t "state").map Value.sorted }

end InfraNode

end Groundwork
