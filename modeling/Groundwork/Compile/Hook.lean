import Groundwork.AppGraph
import Groundwork.Compile.Scope
import Groundwork.Definition.Outputs
import Groundwork.Guard

/-!
# Hooks

For each app node the first hook of its type whose condition holds is instantiated: its modules become
nodes of the app node's own scope, and its outputs are what other app nodes see.  Instances do not see each
other's modules.

Afterwards the references to app nodes in the inputs of hook modules are replaced by the outputs of those
nodes, as often as the outputs themselves refer to app nodes (`linkInputs`).
-/

namespace Groundwork.Compile

/-! ### Conditions -/

/-- The guard of a condition, written bare or as a token. -/
def parseCondition (clause : String) : Except CompileError Guard :=
  let source := (Template.single? (Template.parse clause)).getD clause
  match Guard.parse source with
  | .ok guard => .ok guard
  | .error e => .error (.invalidWhenClause clause e.message)

/-- Checks that a condition does not mention modules. -/
def checkCondition (resourceType : String) : Value → Except CompileError Unit
  | .str clause => do
      let guard ← parseCondition clause
      if guard.references "module" then
        .error (.moduleReferencesNotAllowedInWhenClause resourceType clause)
      else .ok ()
  | _ => .ok ()

/-- Checks all conditions of a block. -/
def checkConditions (hooks : Table (List Hook)) : Except CompileError Unit :=
  hooks.forM fun p => (p.2.filterMap (·.condition)).forM (checkCondition p.1)

/-- Whether a condition holds. -/
def holds (context condition : Value) : Except CompileError Bool :=
  let invalid {α : Type} (message : String) : Except CompileError α :=
    .error (.invalidWhenClause (Json.compact condition) message)
  match condition with
  | .bool b => .ok b
  | .str clause => do
      let guard ← parseCondition clause
      match guard.evaluate context with
      | .error e => invalid e.message
      | .ok (.bool b) => .ok b
      | .ok v => invalid ("evaluated to " ++ Json.compact v ++ ", not a boolean")
  | v => invalid ("expected a boolean expression, got " ++ Json.compact v)

/-! ### Instances -/

/-- The inputs of modules with the values of a context put in. -/
def applyToModules (context : Context) (modules : Table ModuleDef) :
    Except CompileError (Table ModuleDef) :=
  Table.traverse (fun (d : ModuleDef) => (context.apply d.inputs).map fun inputs => { d with inputs })
    modules

/-- The environment that hooks are instantiated in. -/
structure HookContext where
  environment : String
  hooks : Table (List Hook)
  /-- The modules that every instance sees, by name. -/
  visible : Table String

/-- The scope of the modules of an app node. -/
def instanceScope (environment : String) (n : AppNode) : Scope :=
  { within := some (n.key.resourceType ++ "/" ++ n.key.name)
    component := n.key.component
    environment := some (n.key.environment.getD environment)
    appNode := some n.id }

/-- What the condition of a hook is about. -/
def conditionContext (environment : String) (n : AppNode) : Value :=
  .obj [("environment", .obj [("name", .str environment)]), ("node", n.context)]

/-- The first hook whose condition holds. -/
def firstHook (context : Value) : List Hook → Except CompileError (Option Hook)
  | [] => .ok none
  | h :: hooks =>
      match h.condition with
      | none => .ok (some h)
      | some condition => do
          if ← holds context condition then .ok (some h) else firstHook context hooks

/-- The hook that serves an app node. -/
def hookFor (c : HookContext) (n : AppNode) : Except CompileError (Option Hook) :=
  match c.hooks.lookup n.key.resourceType with
  | none => .ok none
  | some hooks => firstHook (conditionContext c.environment n) hooks

/-- The modules of a hook as nodes of an app node. -/
def instanceGraph (c : HookContext) (n : AppNode) (h : Hook) : Except CompileError ScopedGraph := do
  let modules ← applyToModules (Context.empty.withScope "node" n.context) h.modules
  (instanceScope c.environment n).build modules c.visible

/-- The outputs of a hook for an app node, given the ids of the modules of the instance. -/
def instanceOutputs (c : HookContext) (n : AppNode) (h : Hook) (ids : Table String) :
    Except CompileError Value := do
  let outputs ← (Context.empty.withScope "node" n.context).apply h.outputs
  match resolveModules (fun name => (ids.lookup name).or (c.visible.lookup name)) outputs with
  | .error reference => .error (.invalidModuleReference (n.key.resourceType ++ ".outputs") reference)
  | .ok outputs =>
      let missing := Definition.missingOutputs n.key.resourceType outputs
      if missing.isEmpty then .ok outputs
      else .error (.invalidOutputProperties n.key.resourceType n.id missing)

/-- An app node with the graph and the outputs of its hook. -/
structure Instance where
  appNode : String
  graph : Infrastructure
  outputs : Value

/-- The instance of the hook that serves an app node, if one does. -/
def instantiate (c : HookContext) (n : AppNode) : Except CompileError (Option Instance) := do
  match ← hookFor c n with
  | none => .ok none
  | some h => do
      let built ← instanceGraph c n h
      let outputs ← instanceOutputs c n h built.ids
      .ok (some ⟨n.id, built.graph, outputs⟩)

/-! ### Links between app nodes -/

/-- The output that an expression names, given the outputs of app nodes by their ids. -/
def linked? (outputs : Table Value) (e : String) : Option Value := do
  let r ← Reference.ofExpression? e
  let o ← outputs.lookup r.node
  Reference.output? o r.key

/-- Puts the outputs of app nodes in the place of references to them, once. -/
def linkOnce (outputs : Table Value) (v : Value) : Value :=
  Id.run (Template.mapExpressions (fun e => (pure (linked? outputs e) : Id _)) v)

/-- Puts outputs in the place of references until none is left, `n` times at most. -/
def linkInputs (outputs : Table Value) : Nat → Value → Value
  | 0, v => v
  | n + 1, v =>
      if (Template.visitExpressions v).any fun e => (linked? outputs e).isSome then
        linkInputs outputs n (linkOnce outputs v)
      else v

/-- A node of a hook with its references to app nodes replaced. -/
def linkNode (outputs : Table Value) (n : InfraNode) : InfraNode :=
  if n.appNode.isSome then { n with inputs := linkInputs outputs (outputs.length + 1) n.inputs } else n

theorem id_linkNode (outputs : Table Value) (n : InfraNode) : (linkNode outputs n).id = n.id := by
  unfold linkNode
  split <;> rfl

/-- The dependencies of hook nodes that their references show. -/
def linkEdges (g : Infrastructure) : List Edge :=
  (g.nodes.filter (·.appNode.isSome)).flatMap fun n =>
    ((Reference.all n.inputs).filter fun r => g.contains r.node).map fun r => ⟨n.id, r.node⟩

/-- Replaces the references to app nodes and adds the dependencies that then show. -/
def link (outputs : Table Value) (g : Infrastructure) : Infrastructure :=
  if outputs.isEmpty then g
  else
    let linked := g.mapNodes (linkNode outputs) (id_linkNode outputs)
    linked.insertEdges (linkEdges linked)

/-- The first dependency between app nodes on one that no hook serves. -/
def unserved (app : AppGraph) (outputs : Table Value) : Option Edge :=
  app.edges.find? fun e => !outputs.has e.target

/-- Adds the instances of all app nodes to a graph. -/
def addHooks (c : HookContext) (app : AppGraph) (g : Infrastructure) : Except CompileError Infrastructure := do
  checkConditions c.hooks
  let instances ← app.nodes.mapM (instantiate c)
  let instances := instances.filterMap fun i => i
  let outputs : Table Value := instances.map fun i => (i.appNode, i.outputs)
  match unserved app outputs with
  | some e => .error (.missingResourceHook e.target e.source)
  | none => .ok (link outputs (instances.foldl (fun g i => g.merge i.graph) g))

end Groundwork.Compile
