import Groundwork.Definition.Basic

/-!
# Definitions as documents

A definition is written with its version; reading takes a missing version for the first, and the
environment as one block or a list of them.  In a block every field but the modules names a type of app
node and lists its hooks.

Objects are read in the order of their fields.
-/

namespace Groundwork

/-- The only version of definitions. -/
def Definition.version : String := "v1"

/-! ### Writing -/

/-- A module as a document. -/
def ModuleDef.toValue (d : ModuleDef) : Value :=
  .obj [("source", .str d.source), ("plugin", .str d.plugin.name), ("inputs", d.inputs)]

/-- A field with a table, left out if the table is empty. -/
def tableField (k : String) (f : α → Value) (t : Table α) : List (String × Value) :=
  if t.isEmpty then [] else [(k, .obj (t.mapValues f))]

/-- A hook as a document. -/
def Hook.toValue (h : Hook) : Value :=
  .obj (Encode.optional "when" (fun v => v) h.condition ++ tableField "module" ModuleDef.toValue h.modules
    ++ [("outputs", h.outputs)])

/-- A block as a document. -/
def EnvironmentDef.toValue (e : EnvironmentDef) : Value :=
  .obj (tableField "module" ModuleDef.toValue e.modules
    ++ e.hooks.mapValues fun hooks => .arr (hooks.map Hook.toValue))

/-- A definition as a document. -/
def Definition.toValue (d : Definition) : Value :=
  .obj ([("version", .str version)] ++ tableField "variable" Metadata.toValue d.declarations
    ++ tableField "module" ModuleDef.toValue d.modules
    ++ (if d.environments.isEmpty then []
        else [("environment", .arr (d.environments.map EnvironmentDef.toValue))]))

/-! ### Reading -/

/-- Reads a module. -/
def ModuleDef.ofValue? (v : Value) : Option ModuleDef := do
  let t ← Decode.parts ["source", "plugin", "inputs"] v
  return {
    source := ← Decode.needed Decode.text t "source"
    plugin := ← Decode.defaulted .pulumi (Decode.variant PluginKind.ofName?) t "plugin"
    inputs := (t.lookup "inputs").getD (.obj []) }

/-- Reads a hook. -/
def Hook.ofValue? (v : Value) : Option Hook := do
  let t ← Decode.parts ["when", "module", "outputs"] v
  return {
    condition := Decode.wholeOption t "when"
    modules := ← Decode.defaulted [] (Decode.table ModuleDef.ofValue?) t "module"
    outputs := Decode.whole t "outputs" }

/-- Reads a block. -/
def EnvironmentDef.ofValue? (v : Value) : Option EnvironmentDef := do
  let t ← Decode.fields ["module"] v
  return {
    modules := ← Decode.defaulted [] (Decode.table ModuleDef.ofValue?) t "module"
    hooks := ← Decode.table (Decode.list Hook.ofValue?) (.obj (t.filter (·.1 ≠ "module"))) }

/-- Reads the environment of a definition: nothing, one block, or a list of blocks. -/
def Definition.environments? : Value → Option (List EnvironmentDef)
  | .null => some []
  | .arr items => items.mapM EnvironmentDef.ofValue?
  | v => (EnvironmentDef.ofValue? v).map fun e => [e]

/-- Reads a definition without its version. -/
def Definition.body? (v : Value) : Option Definition := do
  let t ← Decode.parts ["variable", "module", "environment"] v
  return {
    declarations := ← Decode.defaulted [] (Decode.table Metadata.ofValue?) t "variable"
    modules := ← Decode.defaulted [] (Decode.table ModuleDef.ofValue?) t "module"
    environments := ← Decode.defaulted [] environments? t "environment" }

/-- The version that a document declares, and the document without it. -/
def Definition.splitVersion : Value → String × Value
  | .obj fields =>
      let version := match fields.lookup "version" with
        | none | some .null => version
        | some (.str s) => s
        | some v => Json.compact v
      (version, .obj (Table.erase fields "version"))
  | v => (version, v)

/-- Reads a definition. -/
def Definition.ofValue (v : Value) : Except CompileError Definition :=
  let (declared, body) := splitVersion v
  if declared = version then
    match body? body with
    | some d => .ok d
    | none => .error (.invalidDefinition "the document does not match the schema")
  else .error (.unsupportedVersion declared)

end Groundwork
