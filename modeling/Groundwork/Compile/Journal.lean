import Groundwork.Compile
import Groundwork.Log

/-!
# The journal of compiling

What the log says while a definition is compiled: which scopes were built, which hooks serve which app
nodes, and how large the graph is at the end.  Where the compilation fails the journal breaks off.

Main statement: a journal without failures tells everything (`beforeFailure_ok`).
-/

namespace Groundwork.Compile

/-- The results up to the first failure. -/
def beforeFailure : List (Except ε α) → List α
  | .ok a :: rest => a :: beforeFailure rest
  | _ => []

/-- The line about a scope that was built. -/
def scopeLine (s : Scope) (built : ScopedGraph) : LogLine :=
  let within := s.within.elim "None" fun folder => "Some(" ++ Text.quoted folder ++ ")"
  ⟨.debug, s!"Built {built.graph.size} modules in scope " ++ within⟩

/-- The line about a hook that serves an app node. -/
def hookLine (n : AppNode) : LogLine := ⟨.debug, "Hook " ++ n.key.resourceType ++ " matched " ++ n.id⟩

/-- The lines about the instance of an app node. -/
def instanceLines (c : HookContext) (n : AppNode) : List (Except CompileError LogLine) :=
  match hookFor c n with
  | .error e => [.error e]
  | .ok none => []
  | .ok (some h) =>
      match instanceGraph c n h with
      | .error e => [.error e]
      | .ok built =>
          [.ok (scopeLine (instanceScope c.environment n) built),
           (instanceOutputs c n h built.ids).map fun _ => hookLine n]

/-- The lines about the modules of an environment and the instances in it. -/
def environmentLines (name : String) (blocks : List EnvironmentDef) (app : AppGraph) (root : ScopedGraph) :
    List (Except CompileError LogLine) :=
  match environmentOf name blocks with
  | .error e => [.error e]
  | .ok block =>
      match (environmentScope name).build block.modules root.ids with
      | .error e => [.error e]
      | .ok environment =>
          let c : HookContext := ⟨name, block.hooks, visibleModules root environment⟩
          let first := .ok (scopeLine (environmentScope name) environment)
          match checkConditions c.hooks with
          | .error e => [first, .error e]
          | .ok () => first :: app.nodes.flatMap (instanceLines c)

/-- The lines about the modules of a definition. -/
def moduleLines (d : Definition) (app : AppGraph) (options : CompileOptions) :
    List (Except CompileError LogLine) :=
  match applyVariables d options with
  | .error e => [.error e]
  | .ok (modules, blocks) =>
      match rootScope.build modules [] with
      | .error e => [.error e]
      | .ok root =>
          .ok (scopeLine rootScope root) ::
            (match options.environment with
              | none => []
              | some name => environmentLines name blocks app root)

/-- The lines of the log for a compilation. -/
def journal (d : Definition) (app : AppGraph) (options : CompileOptions) : List LogLine :=
  let finish := (d.compile app options).map fun g =>
    LogLine.mk .info s!"Compiled datacenter {options.datacenter} into {g.size} modules"
  beforeFailure (moduleLines d app options ++ [finish])

theorem beforeFailure_ok (l : List α) : beforeFailure (l.map (Except.ok (ε := ε))) = l := by
  induction l with
  | nil => rfl
  | cons a l ih => simp [beforeFailure, ih]

end Groundwork.Compile
