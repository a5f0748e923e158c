import Groundwork.Failure
import Groundwork.Log
import Groundwork.Plan.Journal
import Groundwork.Run
import Groundwork.State.Store

/-!
# Reconciling

What was applied last is kept in a store; a plan leads from there to what is wanted.  Applying a plan takes
the lock of its key, runs the plan, writes down whatever the run left in the graph, be it success or
failure, and gives the lock back.

Main statements: the changes of a plan are its nodes that are no no-ops (`mem_changedIds`).
-/

namespace Groundwork

/-- A plan for a key. -/
structure KeyPlan where
  key : StateKey
  graph : Infrastructure
  deriving Inhabited

namespace KeyPlan

/-- How many nodes have each action. -/
def summary (p : KeyPlan) : Plan.Summary := Plan.Summary.ofGraph p.graph

/-- The nodes that the plan changes. -/
def changedIds (p : KeyPlan) : List String := (p.graph.nodes.filter (·.action ≠ .noOp)).map (·.id)

theorem mem_changedIds {p : KeyPlan} {id : String} :
    id ∈ p.changedIds ↔ ∃ n ∈ p.graph.nodes, n.action ≠ .noOp ∧ n.id = id := by
  simp [changedIds, and_assoc]

end KeyPlan

/-- What came of applying a plan. -/
structure Reconciliation where
  summary : Plan.Summary
  /-- The number of nodes that were applied. -/
  applied : Nat
  errors : List String
  /-- The graph as it was written to the store. -/
  graph : Infrastructure

namespace Reconciliation

/-- Whether every node was applied. -/
def success (r : Reconciliation) : Bool := r.errors.isEmpty

/-- What came of a run that reached its end. -/
def ofResults (summary : Plan.Summary) (g : Infrastructure) (results : List NodeResult) : Reconciliation :=
  { summary
    applied := results.countP (·.success)
    errors := results.filterMap fun r => r.error.map fun e => r.id ++ ": " ++ e
    graph := g }

/-- The text for people. -/
def render (r : Reconciliation) : String :=
  let counts := [("Created", r.summary.creates), ("Updated", r.summary.updates),
    ("Deleted", r.summary.deletes), ("Unchanged", r.summary.noOps)]
  let lines := counts.map fun p => "  " ++ p.1 ++ ": " ++ toString p.2
  let errors := if r.errors.isEmpty then [] else "  Errors:" :: r.errors.map ("    - " ++ ·)
  let head := "Apply " ++ (if r.success then "successful" else "failed") ++ ":"
  String.join ((head :: lines ++ errors).map (· ++ "\n"))

end Reconciliation

/-- What reconciling needs: a store, something that runs plans, the time, and a log. -/
structure Reconciler (m : Type → Type u) where
  store : Store m
  run : Infrastructure → m Run
  clock : m Instant
  note : Level → String → m Unit

namespace Reconciler

variable {m : Type → Type u} [Monad m]

/-- The outcome of an operation of the store, as an operation of the whole. -/
def ofStore {α : Type} (act : ExceptT StateError m α) : ExceptT Failure m α := do
  match ← ExceptT.lift act.run with
  | .ok a => return a
  | .error e => throw (.state e)

/-- The record of a key; one of nothing if there is none. -/
def load (r : Reconciler m) (key : StateKey) : ExceptT Failure m Record := do
  match ← ofStore (r.store.load key) with
  | some record => return record
  | none => return Record.fresh (← ExceptT.lift r.clock) key

/-- The plan from what was applied last to what is wanted. -/
def plan (r : Reconciler m) (key : StateKey) (target : Infrastructure) : ExceptT Failure m KeyPlan := do
  let record ← r.load key
  let now ← ExceptT.lift r.clock
  ExceptT.lift ((Plan.journal record.graph target).forM fun line => r.note line.level line.text)
  let p : KeyPlan := ⟨key, Groundwork.plan now record.graph target⟩
  ExceptT.lift (r.note .info (p.summary.render ++ " for " ++ key.render))
  return p

/-- The plan to delete all that was applied. -/
def planDestroy (r : Reconciler m) (key : StateKey) : ExceptT Failure m KeyPlan := r.plan key Graph.empty

/-- Runs a plan and writes down what it leaves behind. -/
def runLocked (r : Reconciler m) (p : KeyPlan) (operation : Operation) :
    ExceptT Failure m Reconciliation := do
  let record ← r.load p.key
  ExceptT.lift (r.note .info
    ("Starting " ++ operation.name ++ " of " ++ p.key.render ++ ": " ++ p.summary.render))
  let run ← ExceptT.lift (r.run p.graph)
  let now ← ExceptT.lift r.clock
  let error := match run.outcome with
    | .ok _ => none
    | .error e => some e.message
  let entry := HistoryEntry.ofRun now operation p.changedIds error
  match ← ExceptT.lift (r.store.save ((record.setGraph now run.graph).addEntry entry)).run with
  | .error e =>
      let f := Failure.state e
      ExceptT.lift (r.note .error ("Failed to save state for " ++ p.key.render ++ ": " ++ f.message))
      throw f
  | .ok () =>
      match run.outcome with
      | .ok results => return .ofResults p.summary run.graph results
      | .error e =>
          ExceptT.lift (r.note .error
            (operation.name ++ " of " ++ p.key.render ++ " failed: " ++ e.message))
          throw (.run e)

/-- Runs a plan under the lock of its key.  The lock is given back whatever the run comes to. -/
def runPlan (r : Reconciler m) (p : KeyPlan) (operation : Operation) :
    ExceptT Failure m Reconciliation := do
  let lock ← ofStore (r.store.acquire p.key operation.name)
  let outcome ← ExceptT.lift (r.runLocked p operation).run
  match ← ExceptT.lift (r.store.release p.key lock.id).run with
  | .ok () => pure ()
  | .error e =>
      ExceptT.lift (r.note .warn
        ("Failed to release state lock on " ++ p.key.render ++ ": " ++ (Failure.state e).message))
  liftExcept outcome

/-- Applies a plan. -/
def apply (r : Reconciler m) (p : KeyPlan) : ExceptT Failure m Reconciliation := r.runPlan p .apply

/-- Deletes all that was applied. -/
def destroy (r : Reconciler m) (key : StateKey) : ExceptT Failure m Reconciliation := do
  r.runPlan (← r.planDestroy key) .destroy

end Reconciler

end Groundwork
