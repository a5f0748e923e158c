import Groundwork.Compile.Hook
import Groundwork.Variable.Resolve

/-!
# Compiling definitions

A definition and an app graph are compiled into an infrastructure graph.  Variables are resolved and put
in; the modules of the datacenter, then those of the environment, then the hooks of the app nodes become
nodes; and every token that is left must be a reference to a node that its owner depends on.
-/

namespace Groundwork

/-- What a definition is compiled for. -/
structure CompileOptions where
  datacenter : String
  environment : Option String
  /-- Values of variables that take the place of their defaults. -/
  values : Table Value
  deriving DecidableEq, Repr, Inhabited

namespace Compile

/-- A hook with the values of a context put in. -/
def applyToHook (context : Context) (h : Hook) : Except CompileError Hook := do
  let condition ← match h.condition with
    | some v => (context.apply v).map some
    | none => .ok none
  let modules ← applyToModules context h.modules
  let outputs ← context.apply h.outputs
  .ok ⟨condition, modules, outputs⟩

/-- A block with the values of a context put in. -/
def applyToEnvironment (context : Context) (e : EnvironmentDef) : Except CompileError EnvironmentDef := do
  let hooks ← Table.traverse (List.visitAll (applyToHook context)) e.hooks
  let modules ← applyToModules context e.modules
  .ok ⟨modules, hooks⟩

/-- Adds a module to those of an environment; its name must be new. -/
def addDeclared (modules : Table ModuleDef) (p : String × ModuleDef) :
    Except CompileError (Table ModuleDef) :=
  if modules.has p.1 then .error (.duplicateModule p.1) else .ok (modules.put p.1 p.2)

/-- Adds a block to an environment. -/
def mergeEnvironment (e block : EnvironmentDef) : Except CompileError EnvironmentDef := do
  let modules ← block.modules.foldlM addDeclared e.modules
  let hooks := block.hooks.foldl (fun hooks p => hooks.put p.1 ((hooks.lookup p.1).getD [] ++ p.2)) e.hooks
  .ok ⟨modules, hooks⟩

/-- All blocks as one. -/
def mergeEnvironments (blocks : List EnvironmentDef) : Except CompileError EnvironmentDef :=
  blocks.foldlM mergeEnvironment ⟨[], []⟩

/-- The values that a definition sees: the name of the datacenter, and its variables. -/
def datacenterContext (options : CompileOptions) (values : Table Value) : Context :=
  Variable.scopes.foldl (fun c scope => c.withStrictScope scope (.obj values))
    (Context.empty.withScope "datacenter" (.obj [("name", .str options.datacenter)]))

/-- The name of the environment, as its block sees it. -/
def environmentContext (name : String) : Context :=
  Context.empty.withScope "environment" (.obj [("name", .str name)])

/-- The modules and blocks of a definition with variables put in. -/
def applyVariables (d : Definition) (options : CompileOptions) :
    Except CompileError (Table ModuleDef × List EnvironmentDef) := do
  let schema ← Variable.schema d.declarations
  let values ← Variable.resolve schema options.values
  let context := datacenterContext options values
  let modules ← applyToModules context d.modules
  let environments ← List.visitAll (applyToEnvironment context) d.environments
  .ok (modules, environments)

/-- The scope of the modules of the datacenter. -/
def rootScope : Scope := ⟨none, none, none, none⟩

/-- The scope of the modules of an environment. -/
def environmentScope (name : String) : Scope := ⟨none, none, some name, none⟩

/-- One environment out of all blocks, with its name put in. -/
def environmentOf (name : String) (blocks : List EnvironmentDef) : Except CompileError EnvironmentDef := do
  let merged ← mergeEnvironments blocks
  applyToEnvironment (environmentContext name) merged

/-- The modules that an instance sees: those of the environment before those of the datacenter. -/
def visibleModules (root environment : ScopedGraph) : Table String :=
  environment.ids ++ root.ids

/-- The first token of a node that refers to no dependency of it. -/
def unresolved? (g : Infrastructure) (n : InfraNode) : Option String :=
  (Template.visitExpressions n.inputs).find? fun e =>
    !(Reference.ofExpression? e).any fun r => g.contains r.node && g.hasEdge n.id r.node

/-- Checks that every token refers to a dependency. -/
def checkTokens (g : Infrastructure) : Except CompileError Unit :=
  match g.nodes.findSome? fun n => (unresolved? g n).map fun e => (n.id, e) with
  | some (id, e) => .error (.unresolvedExpression id e)
  | none => .ok ()

/-- Checks that dependencies exist and do not form cycles. -/
def checkGraph (g : Infrastructure) : Except CompileError Unit :=
  match g.validate with
  | .ok () => .ok ()
  | .error e => .error (.graph e)

/-- Adds an environment with its hooks to the graph of the datacenter. -/
def addEnvironment (name : String) (blocks : List EnvironmentDef) (app : AppGraph) (root : ScopedGraph) :
    Except CompileError Infrastructure := do
  let block ← environmentOf name blocks
  let environment ← (environmentScope name).build block.modules root.ids
  addHooks ⟨name, block.hooks, visibleModules root environment⟩ app (root.graph.merge environment.graph)

end Compile

/-- The infrastructure graph of a definition for an app graph. -/
def Definition.compile (d : Definition) (app : AppGraph) (options : CompileOptions) :
    Except CompileError Infrastructure := do
  let (modules, blocks) ← Compile.applyVariables d options
  let root ← Compile.rootScope.build modules []
  let graph ← match options.environment with
    | none => .ok root.graph
    | some name => Compile.addEnvironment name blocks app root
  Compile.checkTokens graph
  Compile.checkGraph graph
  .ok graph

end Groundwork
