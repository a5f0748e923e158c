import Groundwork.Context
import Groundwork.Variable.Order

/-!
# Values of variables

Variables get their values in the order of their dependencies: the override if there is one, else the
default with the values before it put in.  Each value is also written into the fields of the later
variables that refer to it.  A variable with neither has no value.
-/

namespace Groundwork.Variable

/-- The context in which every word for variables stands for the same values. -/
def lenientContext (values : Table Value) : Context :=
  scopes.foldl (fun c scope => c.withScope scope (.obj values)) Context.empty

/-- The same context, in which every reference must have a value. -/
def strictContext (values : Table Value) : Context :=
  scopes.foldl (fun c scope => c.withStrictScope scope (.obj values)) Context.empty

/-- The value of a variable, given the values before it. -/
def valueOf (overrides values : Table Value) (v : Sorted) : Except CompileError (Option Value) :=
  match overrides.lookup v.name with
  | some value => .ok (some value)
  | none =>
      match v.metadata.default with
      | some default => ((strictContext values).apply default).map some
      | none => .ok none

/-- Fills the value of a variable into one field of metadata. -/
def fillField (context : Context) (m : Metadata) (k : String) : Except CompileError Metadata :=
  match m.field? k with
  | some v => (context.apply v).map (m.setField k)
  | none => .ok m

/-- Fills the value of a variable into every field of a later one that refers to it. -/
def fill (name : String) (value : Value) (v : Sorted) : Except CompileError Sorted :=
  if v.dependencies.contains name then do
    let keys := (v.metadata.uses.filter (·.name = name)).map (·.field)
    let metadata ← keys.foldlM (fillField (lenientContext [(name, value)])) v.metadata
    .ok { v with metadata }
  else .ok v

/-- The values of the first `n` of a list of variables, after the values before them. -/
def resolveFrom (overrides : Table Value) : Nat → Table Value → List Sorted →
    Except CompileError (Table Value)
  | n + 1, values, v :: rest => do
      match ← valueOf overrides values v with
      | none => resolveFrom overrides n values rest
      | some value => do
          let rest ← rest.mapM (fill v.name value)
          resolveFrom overrides n (values.file v.name value) rest
  | _, values, _ => .ok values

/-- The values of all variables that have one, by name. -/
def resolve (s : Schema) (overrides : Table Value) : Except CompileError (Table Value) := do
  let sorted ← sort s
  resolveFrom overrides sorted.length [] sorted

/-- The declared variables without value. -/
def missing (s : Schema) (values : Table Value) : List String := s.keys.filter fun k => !values.has k

end Groundwork.Variable
