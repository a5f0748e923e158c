import Groundwork.AppGraph
import Groundwork.Config.Codec
import Groundwork.Config.Dotenv
import Groundwork.Config.Override
import Groundwork.Definition.Codec
import Groundwork.Failure
import Groundwork.File.Call

/-!
# Loading configurations and documents

A configuration is a document of YAML; definitions and app graphs are documents of JSON or YAML, by the
extension of their files.  Settings of a configuration are overridden by variables of the process, to which
files of variables may add.
-/

namespace Groundwork

/-- Programs that use files and may fail. -/
abbrev FileTask := ExceptT Failure FileProgram

namespace FileTask

/-- Asks the file system. -/
def ask (q : FileCall α) : FileTask α := ExceptT.lift (Program.call q)

/-- Writes a line of the log. -/
def note (level : Level) (text : String) : FileTask Unit := ExceptT.lift (Program.note level text)

/-- The value of an option, or a failure of the configuration. -/
def orFail (e : ConfigError) : Option α → FileTask α
  | some a => pure a
  | none => throw (.config e)

end FileTask

namespace Document

open FileTask

/-- The text of a file. -/
def readText (path : String) : FileTask String := do
  if !(← ask (.pathExists path)) then throw (.config (.fileNotFound path))
  match ← ask (.readText path) with
  | .ok text => return text
  | .error e => throw (.config (.parse ("Failed to read file: " ++ e.message)))

/-- Reads a document by the rules that its extension asks for. -/
def load (ofJson ofYaml : String → Option α) (path : String) : FileTask α := do
  let text ← readText path
  let broken : ConfigError := .parse ("cannot read " ++ path)
  match File.extension? path with
  | some "json" => orFail broken (ofJson text)
  | some "yml" | some "yaml" => orFail broken (ofYaml text)
  | _ => throw (.config (.unsupportedFormat path))

end Document

/-- Loads a definition. -/
def Definition.load (path : String) : FileTask Definition := do
  let value ← Document.load Json.read Yaml.read path
  match Definition.ofValue value with
  | .ok d => return d
  | .error e => throw (.compile e)

/-- The fields of an object changed by their names. -/
def Value.mapFields (f : String → Value → Value) : Value → Value
  | .obj fields => .obj (fields.map fun p => (p.1, f p.1 p.2))
  | v => v

/-- The items of a list changed. -/
def Value.mapItems (f : Value → Value) : Value → Value
  | .arr items => .arr (items.map f)
  | v => v

namespace AppGraph

/-- A node in which names may be any scalars; what is optional may be null. -/
def spellNode (v : Value) : Value :=
  let optional := ["component", "environment"].filter fun k => v.get? k ≠ some .null
  Yaml.spellFields (["name", "type"] ++ optional) v

/-- An app graph in which names and ids may be any scalars. -/
def spell : Value → Value := Value.mapFields fun k v =>
  if k = "nodes" then v.mapItems spellNode
  else if k = "edges" then v.mapItems (Yaml.spellFields ["from", "to"])
  else v

/-- Loads an app graph. -/
def load (path : String) : FileTask AppGraph :=
  Document.load (fun text => (Json.document text).bind ofValue?)
    (fun text => (Yaml.document text).bind fun v => ofValue? (spell v)) path

end AppGraph

namespace Config

open FileTask

/-- The names that the file of a configuration may have, best first. -/
def fileNames : List String := ["infragraph.yaml", "infragraph.yml"]

/-- The first of these paths that leads to anything. -/
def firstExisting : List String → FileTask (Option String)
  | [] => pure none
  | path :: rest => do if ← ask (.pathExists path) then return some path else firstExisting rest

/-- Looks for the file of a configuration in a directory and then in those that it is in, at most `depth`
of them. -/
def findFrom (depth : Nat) (directory : String) : FileTask (Option String) := do
  match ← firstExisting (fileNames.map (File.join directory)) with
  | some path => return some path
  | none =>
      match depth, File.parent? directory with
      | depth + 1, some parent => findFrom depth parent
      | _, _ => return none

/-- Finds the file of the configuration for a directory. -/
def find (directory : String) : FileTask String := do
  match ← findFrom (directory.length + 1) directory with
  | some path => do
      note .info ("Found configuration file: " ++ path)
      return path
  | none => throw (.config (.fileNotFound (File.join directory (fileNames.headD ""))))

/-- Reads the text of a configuration. -/
def parse (text : String) : FileTask Config := do
  let c ← orFail (.parse "YAML parse error") (ofText? text)
  note .debug ("Parsed configuration for datacenter: " ++ c.datacenter.name)
  return c

/-- Loads a configuration.  Its relative paths start where it is. -/
def load (path : String) : FileTask Config := do
  note .info ("Loading configuration from: " ++ path)
  let c ← parse (← Document.readText path)
  return match File.parent? path with
    | some directory => c.resolvePaths directory
    | none => c

/-- The file of variables of the user. -/
def userVariables? (environment : Table String) : Option String :=
  let named := (environment.lookup "XDG_CONFIG_HOME").filter File.isAbsolute
  let usual := (environment.lookup "HOME").filter (· ≠ "") |>.map fun home => File.join home ".config"
  (named.or usual).map fun directory => File.join (File.join directory "infragraph") ".env"

/-- The variables of the process after a file of variables has been read. -/
def loadVariables (environment : Table String) (path : String) : FileTask (Table String) := do
  let broken (m : String) : ConfigError := .parse ("Failed to load .env file: " ++ m)
  match ← ask (.readText path) with
  | .error e => throw (.config (broken e.message))
  | .ok text => orFail (broken path) (Dotenv.load environment text)

/-- The variables of the process after the files of variables have been read that are there: first the one
in a directory, and then the one of the user. -/
def loadAllVariables (environment : Table String) (directory : String) : FileTask (Table String) := do
  let path := File.join directory ".env"
  let environment ←
    if ← ask (.pathExists path) then do
      note .info ("Loading environment from: " ++ path)
      loadVariables environment path
    else do
      note .debug (".env file not found at: " ++ path)
      pure environment
  match userVariables? environment with
  | none => return environment
  | some path =>
      if ← ask (.pathExists path) then
        note .debug ("Loading user environment from: " ++ path)
        loadVariables environment path
      else return environment

/-- Loads a configuration, and takes settings from variables of the process and of the files of variables
in a directory and of the user. -/
def loadWithVariables (environment : Table String) (directory path : String) : FileTask Config := do
  let environment ← loadAllVariables environment directory
  let c ← load path
  (overrideJournal fun k => environment.lookup k).forM fun line => note line.level line.text
  match applyOverrides (fun k => environment.lookup k) c with
  | .ok c => return c
  | .error e => throw (.config e)

end Config

end Groundwork
