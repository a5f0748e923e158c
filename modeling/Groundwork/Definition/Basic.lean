import Groundwork.Failure
import Groundwork.Plugin.Kind
import Groundwork.Variable.Metadata

/-!
# Definitions of datacenters

A definition declares variables, the modules of the datacenter, and environment blocks.  A block declares
modules of its own and, per type of app node, hooks: a hook serves the app nodes that fulfil its condition
with modules and outputs.

`Definition.traverse` visits all modules in the order of their declaration.
-/

namespace Groundwork

/-- A declared module: an image or a directory to build one from, and its inputs. -/
structure ModuleDef where
  source : String
  plugin : PluginKind
  inputs : Value
  deriving DecidableEq, Repr, Inhabited

/-- What serves the app nodes of one type that fulfil a condition. -/
structure Hook where
  /-- The guard, if there is one. -/
  condition : Option Value
  modules : Table ModuleDef
  /-- The values that other app nodes see. -/
  outputs : Value
  deriving DecidableEq, Repr, Inhabited

/-- One environment block. -/
structure EnvironmentDef where
  modules : Table ModuleDef
  /-- The hooks of each type of app node. -/
  hooks : Table (List Hook)
  deriving DecidableEq, Repr, Inhabited

/-- A definition of a datacenter. -/
structure Definition where
  declarations : Table Metadata
  modules : Table ModuleDef
  environments : List EnvironmentDef
  deriving DecidableEq, Repr, Inhabited

section Traversal

variable {m : Type → Type u} [Monad m] {α : Type}

/-- Visits the entries of a table in order. -/
def Table.traverse (f : α → m α) : Table α → m (Table α)
  | [] => pure []
  | (k, a) :: t => do
      let a ← f a
      let t ← traverse f t
      pure ((k, a) :: t)

/-- Visits the items of a list in order. -/
def List.visitAll (f : α → m α) : List α → m (List α)
  | [] => pure []
  | a :: l => do
      let a ← f a
      let l ← visitAll f l
      pure (a :: l)

/-- Visits the modules of a hook. -/
def Hook.traverse (f : ModuleDef → m ModuleDef) (h : Hook) : m Hook := do
  let modules ← Table.traverse f h.modules
  pure { h with modules }

/-- Visits the modules of an environment block: its own, then those of its hooks. -/
def EnvironmentDef.traverse (f : ModuleDef → m ModuleDef) (e : EnvironmentDef) : m EnvironmentDef := do
  let modules ← Table.traverse f e.modules
  let hooks ← Table.traverse (List.visitAll (Hook.traverse f)) e.hooks
  pure ⟨modules, hooks⟩

/-- Visits all modules of a definition: those of the datacenter, then those of each block. -/
def Definition.traverse (f : ModuleDef → m ModuleDef) (d : Definition) : m Definition := do
  let modules ← Table.traverse f d.modules
  let environments ← List.visitAll (EnvironmentDef.traverse f) d.environments
  pure { d with modules, environments }

end Traversal

end Groundwork
