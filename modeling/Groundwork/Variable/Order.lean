import Groundwork.Variable.Metadata

/-!
# Order of variables

Variables are listed so that each comes after all its metadata refers to.  The search goes depth first, in
the order of declaration and, below a variable, in the order of names; meeting a variable that is still
being visited is a cycle.
-/

namespace Groundwork.Variable

/-- A variable with the names it directly depends on, in order. -/
structure Sorted where
  name : String
  metadata : Metadata
  dependencies : List String
  deriving DecidableEq, Repr, Inhabited

/-- The names that metadata refers to, each once, in order. -/
def dependenciesOf (m : Metadata) : List String :=
  (Table.sorted (m.uses.map fun u => (u.name, ()))).keys

/-- The names that a variable directly depends on. -/
def dependencies (s : Schema) (name : String) : List String :=
  ((s.lookup name).map dependenciesOf).getD []

/-- The state of the search. -/
structure Search where
  /-- The variables being visited. -/
  active : List String
  /-- The variables visited, last one first. -/
  done : List String
  deriving Repr

/-- Visits a variable after all it depends on; `n` bounds the depth. -/
def visit (s : Schema) : Nat → Search → String → Except CompileError Search
  | 0, search, _ => .ok search
  | n + 1, search, name => do
      let below ← (dependencies s name).foldlM
        (fun search target =>
          if search.active.contains target then .error (.circularVariableDependency name target)
          else if search.done.contains target then .ok search
          else visit s n search target)
        { search with active := name :: search.active }
      .ok ⟨below.active.erase name, name :: below.done⟩

/-- The names of all variables, each after those it depends on. -/
def orderedNames (s : Schema) : Except CompileError (List String) := do
  let search ← s.keys.foldlM
    (fun search name =>
      if search.done.contains name then .ok search else visit s (s.length + 1) search name)
    ⟨[], []⟩
  .ok search.done.reverse

/-- All variables, each after those it depends on. -/
def sort (s : Schema) : Except CompileError (List Sorted) := do
  let names ← orderedNames s
  .ok (names.filterMap fun name => (s.lookup name).map fun m => ⟨name, m, dependenciesOf m⟩)

end Groundwork.Variable
