import Groundwork.Data.Decode

/-!
# Keys of records

A record belongs to a datacenter as a whole or to one of its environments.  `relativePath` gives every key a
place of its own.
-/

namespace Groundwork

/-- What a record is about. -/
structure StateKey where
  datacenter : String
  environment : Option String
  deriving DecidableEq, Repr, Inhabited

namespace StateKey

/-- The key of a datacenter as a whole. -/
def whole (datacenter : String) : StateKey := ⟨datacenter, none⟩

/-- The path of the record below the place where a store keeps its records. -/
def relativePath (k : StateKey) : String :=
  match k.environment with
  | some environment => k.datacenter ++ "/environments/" ++ environment ++ ".json"
  | none => k.datacenter ++ "/datacenter.json"

/-- The text of a key. -/
def render (k : StateKey) : String :=
  match k.environment with
  | some environment => k.datacenter ++ "/" ++ environment
  | none => k.datacenter

/-- A key as a document. -/
def toValue (k : StateKey) : Value :=
  .obj (("datacenter", .str k.datacenter) :: Encode.optional "environment" .str k.environment)

/-- Reads a key. -/
def ofValue? (v : Value) : Option StateKey := do
  let t ← Decode.parts ["datacenter", "environment"] v
  return {
    datacenter := ← Decode.needed Decode.text t "datacenter"
    environment := ← Decode.optional Decode.text t "environment" }

theorem ofValue?_toValue (k : StateKey) : ofValue? k.toValue = some k := by
  obtain ⟨datacenter, environment⟩ := k
  cases environment <;>
    simp [ofValue?, toValue, Encode.optional, Decode.parts, Table.keys, Decode.needed, Decode.optional,
      Decode.text, Value.str?, List.lookup_nil, List.lookup_cons, List.eraseDups_cons]

end StateKey

end Groundwork
