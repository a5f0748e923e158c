import Groundwork.Data.Decode
import Groundwork.Json.Reader
import Groundwork.Json.Writer

/-!
# Requests to plugins and their answers

A request goes out as one text: an object that names the command and holds the request.  What comes back is
a row of messages; each of them may carry a line for the log, an error, or the result.

Main statements: a request to apply reads back from its document (`ApplyRequest.ofValue?_toValue`).
-/

namespace Groundwork

/-- The fields of an object as pairs; any other value has none. -/
def inputPairs (v : Value) : List (String × Value) := v.fields?.getD []

/-- What a plugin is asked to do with one node. -/
structure ApplyRequest where
  /-- The id of the node. -/
  pluginId : String
  image : String
  inputs : List (String × Value)
  /-- What the plugin returned as state the last time. -/
  state : Option Value
  /-- Whether the node is to go. -/
  destroy : Bool
  deriving DecidableEq, Repr, Inhabited

/-- What a plugin returns for a node. -/
structure ApplyResponse where
  state : Option Value
  outputs : Value
  deriving DecidableEq, Repr, Inhabited

namespace ApplyRequest

/-- An input as a pair. -/
def inputValue (p : String × Value) : Value := .arr [.str p.1, p.2]

/-- A request as a document. -/
def toValue (r : ApplyRequest) : Value :=
  .obj ([("pluginId", .str r.pluginId), ("image", .str r.image),
      ("inputs", .arr (r.inputs.map inputValue))]
    ++ Encode.optional "state" (fun v => v) r.state
    ++ (if r.destroy then [("destroy", .bool true)] else []))

/-- Reads an input. -/
def readInput? : Value → Option (String × Value)
  | .arr [.str k, v] => some (k, v)
  | _ => none

/-- Reads a request. -/
def ofValue? (v : Value) : Option ApplyRequest := do
  let t ← Decode.parts ["pluginId", "image", "inputs", "state", "destroy"] v
  return {
    pluginId := ← Decode.needed Decode.text t "pluginId"
    image := ← Decode.needed Decode.text t "image"
    inputs := ← Decode.needed (Decode.list readInput?) t "inputs"
    state := Decode.wholeOption t "state"
    destroy := ← Decode.defaulted false Decode.truth t "destroy" }

theorem mapM_readInput? (l : List (String × Value)) :
    l.mapM (readInput? ∘ inputValue) = some l := by
  induction l with
  | nil => rfl
  | cons p l ih => simp [List.mapM_cons, readInput?, inputValue, ih]

/-- A null state comes back as none. -/
theorem ofValue?_toValue (r : ApplyRequest) (h : r.state ≠ some .null) :
    ofValue? r.toValue = some r := by
  obtain ⟨pluginId, image, inputs, state, destroy⟩ := r
  have hs : ∀ v, state = some v → v ≠ .null := fun v e hv => h (by simp [e, hv])
  rcases state with _ | v <;> cases destroy <;>
    simp [ofValue?, toValue, Encode.optional, Decode.parts, Table.keys, Decode.needed, Decode.text,
      Value.str?, Decode.list, mapM_readInput?, Decode.wholeOption, Decode.defaulted, Decode.truth,
      List.lookup_nil, List.lookup_cons, List.eraseDups_cons]
  all_goals
    have hv := hs v rfl
    cases v <;> simp_all

end ApplyRequest

namespace ApplyResponse

/-- A response as a document. -/
def toValue (r : ApplyResponse) : Value :=
  .obj [("state", r.state.getD .null), ("outputs", r.outputs)]

/-- Reads a response. -/
def ofValue? (v : Value) : Option ApplyResponse := do
  let t ← Decode.parts ["state", "outputs"] v
  return { state := Decode.wholeOption t "state", outputs := Decode.whole t "outputs" }

end ApplyResponse

/-- What a plugin can be asked. -/
inductive Command where
  /-- To make an image of a directory. -/
  | build (directory : String)
  /-- To apply a node, or to destroy it. -/
  | apply (request : ApplyRequest)
  deriving DecidableEq, Repr, Inhabited

namespace Command

/-- The name of a command. -/
def name : Command → String
  | .build _ => "build"
  | .apply _ => "apply"

/-- A command as a document. -/
def toValue (c : Command) : Value :=
  let request := match c with
    | .build directory => Value.obj [("directory", .str directory)]
    | .apply request => request.toValue
  .obj [("command", .str c.name), ("request", request)]

/-- The text that goes to the plugin. -/
def render (c : Command) : String := Json.compact c.toValue

end Command

/-- The request to build a directory. -/
def readDirectory? (v : Value) : Option String := do
  let t ← Decode.parts ["directory"] v
  Decode.needed Decode.text t "directory"

/-- The image that a build returned. -/
def readImage? (v : Value) : Option String := do
  let t ← Decode.parts ["image"] v
  Decode.needed Decode.text t "image"

/-- A message of a plugin. -/
structure Message where
  verboseOutput : Option String
  error : Option Value
  result : Option Value
  deriving DecidableEq, Repr, Inhabited

namespace Message

/-- Reads a message. -/
def ofText? (text : String) : Option Message := do
  let t ← Decode.parts ["verboseOutput", "error", "result"] (← Json.document text)
  return {
    verboseOutput := ← Decode.optional Decode.text t "verboseOutput"
    error := (Decode.wholeOption t "error").map Value.sorted
    result := (Decode.wholeOption t "result").map Value.sorted }

end Message

end Groundwork
