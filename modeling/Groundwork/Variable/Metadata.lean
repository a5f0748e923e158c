import Groundwork.Data.Decode
import Groundwork.Failure
import Groundwork.Json.Writer
import Groundwork.Path
import Groundwork.Template

/-!
# Variables and their metadata

A variable is declared with metadata: a type, perhaps a description and a default, and any further fields.
Each of these fields may refer to other variables; `schema` records which field refers to which, and
rejects references to variables that are not declared.
-/

namespace Groundwork

/-- A metadata field that refers to a variable. -/
structure VariableUse where
  field : String
  name : String
  deriving DecidableEq, Repr, Inhabited

/-- What is declared about a variable. -/
structure Metadata where
  type : String
  description : Option String
  default : Option Value
  uses : List VariableUse
  extra : Table Value
  deriving DecidableEq, Repr, Inhabited

namespace Metadata

/-- Metadata of a type and nothing else. -/
def ofType (type : String) : Metadata := ⟨type, none, none, [], []⟩

/-- The value of a field. -/
def field? (m : Metadata) (k : String) : Option Value :=
  if k = "type" then some (.str m.type)
  else if k = "description" then m.description.map .str
  else if k = "default" then m.default
  else m.extra.lookup k

/-- The metadata with a field changed.  A type can only be a text; a description becomes one. -/
def setField (m : Metadata) (k : String) (v : Value) : Metadata :=
  if k = "type" then
    match v with
    | .str s => { m with type := s }
    | _ => m
  else if k = "description" then
    match v with
    | .str s => { m with description := some s }
    | v => { m with description := some (Json.compact v) }
  else if k = "default" then { m with default := some v }
  else { m with extra := m.extra.put k v }

/-- All fields, in order. -/
def fields (m : Metadata) : List (String × Value) :=
  [("type", .str m.type)] ++ Encode.optional "description" .str m.description
    ++ Encode.optional "default" (fun v => v) m.default ++ m.extra

/-- A use as a document. -/
def useValue (u : VariableUse) : Value := .obj [("key", .str u.field), ("value", .str u.name)]

/-- Metadata as a document. -/
def toValue (m : Metadata) : Value :=
  .obj ([("type", .str m.type)] ++ Encode.optional "description" .str m.description
    ++ Encode.optional "default" (fun v => v) m.default
    ++ (if m.uses.isEmpty then [] else [("dependant_variables", .arr (m.uses.map useValue))])
    ++ m.extra)

/-- Reads a use. -/
def readUse? (v : Value) : Option VariableUse := do
  let t ← Decode.parts ["key", "value"] v
  return ⟨← Decode.needed Decode.text t "key", ← Decode.needed Decode.text t "value"⟩

/-- The names of the fields that every variable may have. -/
def knownFields : List String := ["type", "description", "default", "dependant_variables"]

/-- Reads metadata; unknown fields are kept. -/
def ofValue? (v : Value) : Option Metadata := do
  let t ← Decode.fields knownFields v
  return {
    type := ← Decode.defaulted "string" Decode.text t "type"
    description := ← Decode.optional Decode.text t "description"
    default := Decode.wholeOption t "default"
    uses := ← Decode.defaulted [] (Decode.list readUse?) t "dependant_variables"
    extra := Table.ofPairs (t.filter fun p => !knownFields.contains p.1) }

end Metadata

/-- The variables of a definition, by name. -/
abbrev Schema := Table Metadata

namespace Variable

/-- The words that a reference to a variable starts with. -/
def scopes : List String := ["variable", "var", "variables"]

/-- The variable that an expression refers to. -/
def named? (e : String) : Option String :=
  match Path.parse? e with
  | some (.field root :: .field name :: _) => if scopes.contains root then some name else none
  | _ => none

/-- The references of metadata to variables, field by field. -/
def usesOf (m : Metadata) : List VariableUse :=
  m.fields.flatMap fun p =>
    ((Template.visitExpressions p.2).filterMap named?).map fun name => ⟨p.1, name⟩

/-- The metadata of a variable with its references recorded. -/
def recordUses (declared : Table Metadata) (name : String) (m : Metadata) :
    Except CompileError Metadata :=
  let uses := usesOf m
  match uses.find? fun u => !declared.has u.name with
  | some u => .error (.unknownVariable name u.name)
  | none => .ok { m with uses }

/-- The declared variables with their references recorded. -/
def schema (declared : Table Metadata) : Except CompileError Schema :=
  declared.mapM fun p => (recordUses declared p.1 p.2).map fun m => (p.1, m)

end Variable

end Groundwork
