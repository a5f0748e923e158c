import Groundwork.Context
import Groundwork.Definition.Basic
import Groundwork.Failure
import Groundwork.Infrastructure.Graph

/-!
# Module scopes

The modules of one scope see each other and the modules of the scopes around it by their names.  Building a
scope gives every module a node, turns references to modules by name into references to nodes, and records
the dependencies.

Main statements: the module that a reference names is looked up in the scope first (`lookup_own`).
-/

namespace Groundwork.Compile

/-- What the nodes of a scope have in common. -/
structure Scope where
  /-- What stands before the names of the modules. -/
  within : Option String
  component : Option String
  environment : Option String
  appNode : Option String
  deriving DecidableEq, Repr, Inhabited

/-- The nodes of a scope, and the id of each module by its name. -/
structure ScopedGraph where
  graph : Infrastructure
  ids : Table String

/-- The module and the key of a reference to a module; the error is a reference without key. -/
def moduleReference? (e : String) : Option (Except String (String × String)) :=
  (Text.dropStart "module.".toList e.toList).map fun rest =>
    match Text.cut ['.'] rest with
    | some (name, key) => .ok (String.ofList name, String.ofList key)
    | none => .error e

/-- What a token becomes: a reference to a module becomes one to its node. -/
def resolveModule (lookup : String → Option String) (e : String) : Except String (Option Value) :=
  match moduleReference? e with
  | none => .ok none
  | some (.error e) => .error e
  | some (.ok (name, key)) =>
      match lookup name with
      | none => .error e
      | some node => .ok (some (.str (Reference.token ⟨node, key⟩)))

/-- Turns references to modules into references to nodes; the error is the expression at fault. -/
def resolveModules (lookup : String → Option String) (v : Value) : Except String Value :=
  Template.mapExpressions (resolveModule lookup) v

/-- The nodes that the references to modules name, in order. -/
def moduleTargets (lookup : String → Option String) (v : Value) : List String :=
  (Template.visitExpressions v).filterMap fun e =>
    match moduleReference? e with
    | some (.ok (name, _)) => lookup name
    | _ => none

namespace Scope

/-- The key of a module of a scope. -/
def key (s : Scope) (name : String) : Key :=
  let full := match s.within with
    | some folder => folder ++ "/" ++ name
    | none => name
  ⟨"module", full, s.component, s.environment⟩

/-- The node of a module of a scope, before its inputs are resolved. -/
def node (s : Scope) (name : String) (d : ModuleDef) : InfraNode :=
  { InfraNode.create (s.key name) d.source d.plugin with appNode := s.appNode }

/-- The ids of the modules of a scope. -/
def ids (s : Scope) (modules : Table ModuleDef) : Table String :=
  modules.map fun p => (p.1, (s.node p.1 p.2).id)

/-- The id of the module that another one names: not itself, one of the same scope, or one of the scopes
around it. -/
def visibleFrom (own around : Table String) (name reference : String) : Option String :=
  if reference = name then none else (own.lookup reference).or (around.lookup reference)

/-- Adds the node and the dependencies of one module. -/
def addModule (s : Scope) (own around : Table String) (g : Infrastructure) (p : String × ModuleDef) :
    Except CompileError Infrastructure :=
  let (name, d) := p
  let lookup := visibleFrom own around name
  let node := s.node name d
  match resolveModules lookup d.inputs with
  | .error reference => .error (.invalidModuleReference name reference)
  | .ok inputs =>
      .ok ((g.insertNode { node with inputs }).insertEdges
        ((moduleTargets lookup d.inputs).map fun target => ⟨node.id, target⟩))

/-- The graph of the modules of a scope. -/
def build (s : Scope) (modules : Table ModuleDef) (around : Table String) :
    Except CompileError ScopedGraph := do
  let own := s.ids modules
  let graph ← modules.foldlM (s.addModule own around) Graph.empty
  .ok ⟨graph, own⟩

theorem lookup_own {own around : Table String} {name reference id : String} (hn : reference ≠ name)
    (h : own.lookup reference = some id) : visibleFrom own around name reference = some id := by
  simp [visibleFrom, hn, h]

end Scope

end Groundwork.Compile
