import Groundwork.AppGraph
import Groundwork.Failure
import Groundwork.Reference

/-!
# Components: naming resources of an application

Within a component, resources name each other by what they are: services, databases, builds, ingresses,
variables, and the same through dependencies on other components.  `Component.resolve` turns every such
token into a reference to the id of the node meant, and records the dependency in the app graph.

A reference to a database goes through a user of its own, a node that is added to the graph.
-/

namespace Groundwork

/-- The naming context of a component. -/
structure Component where
  name : String
  environment : Option String
  /-- The components that dependencies stand for. -/
  dependencies : Table String
  deriving Repr, Inhabited

namespace Component

/-- The key of a resource of a component in the same environment. -/
def keyOf (c : Component) (resourceType name component : String) : Key :=
  ⟨resourceType, name, some component, c.environment⟩

/-- The component that a dependency stands for. -/
def dependency (c : Component) (handle : String) : Except CompileError String :=
  match c.dependencies.lookup handle with
  | some component => .ok component
  | none => .error (.invalidDependencyReference handle)

/-- The name of a database user within a resource name of its inputs: slashes become dashes. -/
def flatName (name : String) : String :=
  String.ofList (Text.replace ['/'] ['-', '-'] name.toList)

/-- The user through which a node reaches a database: its inputs refer to the outputs of the database. -/
def databaseUser (c : Component) (owner database : String) : AppNode :=
  let databaseId := (c.keyOf "database" database c.name).id
  let name := owner ++ "/" ++ database
  let field (key : String) : String × Value := (key, .str (Reference.token ⟨databaseId, key⟩))
  { key := c.keyOf "databaseUser" name c.name
    inputs := .obj
      [field "database", field "host", ("name", .str (flatName name)), field "password", field "port",
       field "protocol", field "username"] }

/-- What a token of a component stands for. -/
inductive Target where
  /-- The name of the environment, if there is one. -/
  | environment
  /-- An output of a resource. -/
  | resource (key : Key) (output : String)
  /-- An output of the user of a database. -/
  | database (name output : String)
  deriving DecidableEq, Repr

/-- What the parts of a token stand for; `none` for a token that is not about the component. -/
def target (c : Component) (parts : List String) : Except CompileError (Option Target) :=
  match parts with
  | ["environment", "name"] => .ok (some .environment)
  | ["variables", name] | ["secrets", name] | ["parameters", name] | ["vars", name] =>
      .ok (some (.resource (c.keyOf "secret" name c.name) "data"))
  | ["databases", name, key] => .ok (some (.database name key))
  | ["builds", name, key] => .ok (some (.resource (c.keyOf "dockerBuild" name c.name) key))
  | ["services", name, key] => .ok (some (.resource (c.keyOf "service" name c.name) key))
  | ["ingresses", name, key] => .ok (some (.resource (c.keyOf "ingressRule" name c.name) key))
  | ["dependencies", handle, "outputs", output] => do
      let component ← c.dependency handle
      .ok (some (.resource (c.keyOf "secret" output component) "data"))
  | ["dependencies", handle, "services", name, key] => do
      let component ← c.dependency handle
      .ok (some (.resource (c.keyOf "service" name component) key))
  | ["dependencies", handle, "ingresses", name, key] => do
      let component ← c.dependency handle
      .ok (some (.resource (c.keyOf "ingressRule" name component) key))
  | _ => .ok none

/-- The parts of an expression between its dots, if none of them is empty or holds a blank. -/
def partsOf? (e : String) : Option (List String) :=
  let parts := Text.splitOn '.' e.toList
  if parts.any fun p => p.isEmpty || p.any Text.isBlank then none else some (parts.map String.ofList)

/-- Adds the user of a database with its dependencies, and gives its id. -/
def addDatabaseUser (c : Component) (owner database : String) (g : AppGraph) : String × AppGraph :=
  let user := c.databaseUser owner database
  let databaseId := (c.keyOf "database" database c.name).id
  (user.id, ((g.insertNode user).insertEdge ⟨user.id, databaseId⟩).insertEdge ⟨owner, user.id⟩)

/-- The value of an expression of a node; `none` if it is to be left in place.  The dependencies that it
brings about are added to the graph. -/
def resolveExpression (c : Component) (owner e : String) :
    ExceptT CompileError (StateM AppGraph) (Option Value) :=
  match partsOf? e with
  | none => pure none
  | some parts => do
      match ← liftExcept (c.target parts) with
      | none => pure none
      | some .environment => pure (c.environment.map .str)
      | some (.resource key output) => do
          modify (·.insertEdge ⟨owner, key.id⟩)
          pure (some (.str (Reference.token ⟨key.id, output⟩)))
      | some (.database name output) => do
          let (id, g) := c.addDatabaseUser owner name (← get)
          set (g.insertEdge ⟨owner, id⟩)
          pure (some (.str (Reference.token ⟨id, output⟩)))
where
  /-- A result without effects. -/
  liftExcept {α : Type} : Except CompileError α → ExceptT CompileError (StateM AppGraph) α
    | .ok a => pure a
    | .error e => throw e

/-- Resolves the tokens of a node's inputs.  The graph comes back with the dependencies found, also those
found before an error. -/
def resolve (c : Component) (owner : String) (inputs : Value) (g : AppGraph) :
    Except CompileError Value × AppGraph :=
  (Template.mapExpressions (c.resolveExpression owner) inputs).run.run g

end Component

end Groundwork
