import Groundwork.Config.Basic
import Groundwork.Data.Decode
import Groundwork.Yaml.Flow

/-!
# Configurations as documents

A configuration is written with all its settings, and read with defaults for those that are missing.  A
setting that is a text may be any scalar.
-/

namespace Groundwork

open Yaml (text?)

namespace DatacenterSettings

/-- The settings as a document. -/
def toValue (s : DatacenterSettings) : Value :=
  .obj [("name", .str s.name), ("path", .str s.path), ("variables", .obj s.values)]

/-- Reads the settings. -/
def ofValue? (v : Value) : Option DatacenterSettings := do
  let t ← Decode.parts ["name", "path", "variables"] v
  return {
    name := ← Decode.needed text? t "name"
    path := ← Decode.needed text? t "path"
    values := ← Decode.defaulted [] (Decode.table fun v => some v.sorted) t "variables" }

end DatacenterSettings

namespace EnvironmentSettings

/-- The settings as a document. -/
def toValue (s : EnvironmentSettings) : Value :=
  .obj [("name", .str s.name), ("graph", Value.ofOption .str s.graph)]

/-- Reads the settings. -/
def ofValue? (v : Value) : Option EnvironmentSettings := do
  let t ← Decode.parts ["name", "graph"] v
  return {
    name := ← Decode.needed text? t "name"
    graph := ← Decode.optional text? t "graph" }

end EnvironmentSettings

namespace StateSettings

/-- The settings as a document. -/
def toValue (s : StateSettings) : Value :=
  .obj
    [("backend", .str s.backend.name), ("bucket", Value.ofOption .str s.bucket),
     ("prefix", Value.ofOption .str s.directory), ("region", Value.ofOption .str s.region),
     ("path", Value.ofOption .str s.path)]

/-- Reads the settings. -/
def ofValue? (v : Value) : Option StateSettings := do
  let t ← Decode.parts ["backend", "bucket", "prefix", "region", "path"] v
  return {
    backend := ← Decode.defaulted .files (fun v => (text? v).bind Backend.ofName?) t "backend"
    bucket := ← Decode.optional text? t "bucket"
    directory := ← Decode.optional text? t "prefix"
    region := ← Decode.optional text? t "region"
    path := ← Decode.optional text? t "path" }

end StateSettings

namespace PluginSettings

/-- The settings as a document. -/
def toValue (s : PluginSettings) : Value :=
  .obj [("image_prefix", .str s.imageStart), ("mount", Value.ofOption .str s.mount)]

/-- Reads the settings. -/
def ofValue? (v : Value) : Option PluginSettings := do
  let t ← Decode.parts ["image_prefix", "mount"] v
  return {
    imageStart := ← Decode.defaulted Config.defaultImageStart text? t "image_prefix"
    mount := ← Decode.optional text? t "mount" }

end PluginSettings

namespace Config

/-- The greatest number that a setting may hold, and one. -/
def numberBound : Nat := UInt64.size

/-- Reads the settings of a run. -/
def readExecution? (v : Value) : Option Nat := do
  let t ← Decode.parts ["concurrency"] v
  Decode.defaulted 1 (Decode.natural numberBound) t "concurrency"

/-- A configuration as a document. -/
def toValue (c : Config) : Value :=
  .obj
    [("datacenter", c.datacenter.toValue), ("environment", Value.ofOption (·.toValue) c.environment),
     ("state", c.state.toValue), ("plugins", c.plugins.toValue),
     ("execution", .obj [("concurrency", .ofNat c.concurrency)])]

/-- Reads a configuration. -/
def ofValue? (v : Value) : Option Config := do
  let t ← Decode.parts ["datacenter", "environment", "state", "plugins", "execution"] v
  return {
    datacenter := ← Decode.needed DatacenterSettings.ofValue? t "datacenter"
    environment := ← Decode.optional EnvironmentSettings.ofValue? t "environment"
    state := ← Decode.defaulted defaultState StateSettings.ofValue? t "state"
    plugins := ← Decode.defaulted defaultPlugins PluginSettings.ofValue? t "plugins"
    concurrency := ← Decode.defaulted 1 readExecution? t "execution" }

/-- Reads the text of a configuration. -/
def ofText? (text : String) : Option Config := (Yaml.document text).bind ofValue?

end Config

end Groundwork
