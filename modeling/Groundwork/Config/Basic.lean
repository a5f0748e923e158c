import Groundwork.Data.Value
import Groundwork.File.Path
import Groundwork.State.Key

/-!
# Configurations

A configuration names the definition to compile, the environment and the app graph to compile it for, where
records are kept, and how plugins run.

Main statement: once relative paths are resolved against a directory at the root, resolving them again
changes nothing (`resolvePath_of_isAbsolute`).
-/

namespace Groundwork

/-- What to compile. -/
structure DatacenterSettings where
  name : String
  /-- The file of the definition. -/
  path : String
  /-- Values that take the place of the defaults of variables. -/
  values : Table Value
  deriving DecidableEq, Repr, Inhabited

/-- What to compile it for. -/
structure EnvironmentSettings where
  name : String
  /-- The file of the app graph. -/
  graph : Option String
  deriving DecidableEq, Repr, Inhabited

/-- The kinds of stores. -/
inductive Backend where
  | files | bucket
  deriving DecidableEq, Repr, Inhabited

/-- The name of a kind of stores. -/
def Backend.name : Backend → String
  | .files => "local"
  | .bucket => "s3"

/-- The kind of a name. -/
def Backend.ofName? (s : String) : Option Backend := [.files, .bucket].find? (·.name = s)

/-- Where records are kept. -/
structure StateSettings where
  backend : Backend
  bucket : Option String
  /-- The directory within the bucket. -/
  directory : Option String
  region : Option String
  /-- The directory of a store of files. -/
  path : Option String
  deriving DecidableEq, Repr, Inhabited

/-- How plugins run. -/
structure PluginSettings where
  /-- What the names of their images start with. -/
  imageStart : String
  /-- A directory that they all see. -/
  mount : Option String
  deriving DecidableEq, Repr, Inhabited

/-- A configuration. -/
structure Config where
  datacenter : DatacenterSettings
  environment : Option EnvironmentSettings
  state : StateSettings
  plugins : PluginSettings
  /-- The greatest number of nodes that are applied at once. -/
  concurrency : Nat
  deriving DecidableEq, Repr, Inhabited

namespace Config

/-- Records are kept in files unless said otherwise. -/
def defaultState : StateSettings := ⟨.files, none, none, none, none⟩

/-- What the names of images start with unless said otherwise. -/
def defaultImageStart : String := "architectio/"

/-- Plugins unless said otherwise. -/
def defaultPlugins : PluginSettings := ⟨defaultImageStart, none⟩

/-- The configuration of a definition, with the defaults for everything else. -/
def ofDefinition (name path : String) : Config :=
  ⟨⟨name, path, []⟩, none, defaultState, defaultPlugins, 1⟩

/-- The name of the environment. -/
def environmentName (c : Config) : Option String := c.environment.map (·.name)

/-- The key under which records are kept. -/
def stateKey (c : Config) : StateKey := ⟨c.datacenter.name, c.environmentName⟩

/-- A path as it is seen from the directory of the configuration. -/
def resolvePath (base path : String) : String := File.join base path

/-- Resolves all paths against the directory of the configuration. -/
def resolvePaths (base : String) (c : Config) : Config :=
  let resolve := resolvePath base
  { c with
    datacenter := { c.datacenter with path := resolve c.datacenter.path }
    environment := c.environment.map fun e => { e with graph := e.graph.map resolve }
    state := { c.state with path := c.state.path.map resolve }
    plugins := { c.plugins with mount := c.plugins.mount.map resolve } }

theorem resolvePath_of_isAbsolute {base path : String} (h : File.isAbsolute path = true) :
    resolvePath base path = path := File.join_of_isAbsolute h

end Config

end Groundwork
