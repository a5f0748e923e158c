import Groundwork.AppGraph
import Groundwork.CommandLine.Invocation
import Groundwork.Reconcile
import Groundwork.Run.Progress

/-!
# Showing values to other programs

`Shown` gives the document by which other programs see a value.  Unlike the document in which a value is
stored, it also tells what follows from the value, such as the id of a node or whether a record is settled,
and it shows of a time only that it is there, as times differ from run to run.
-/

namespace Groundwork

/-- An object whose fields come in any order. -/
def Value.object (fields : List (String × Value)) : Value := .obj (Table.sorted fields)

/-- Types that are shown as documents. -/
class Shown (α : Type) where
  shown : α → Value

namespace Shown

instance [Shown α] : CoeHead α Value := ⟨shown⟩
instance : Shown Value := ⟨id⟩
instance : Shown String := ⟨.str⟩
instance : Shown Bool := ⟨.bool⟩
instance : Shown Nat := ⟨.ofNat⟩
instance [Shown α] : Shown (List α) := ⟨fun l => .arr (l.map shown)⟩
instance [Shown α] : Shown (Option α) := ⟨Value.ofOption shown⟩

/-! ### Graphs -/

/-- A graph with the id of every node. -/
def graph [Identified N] (node : N → Value) (g : Graph N) : Value :=
  let withId (n : N) : Value := .object ((node n).fields?.getD [] ++ [("id", .str (Identified.id n))])
  .object [("nodes", g.nodes.map withId), ("edges", g.edges.map Edge.toValue)]

/-- A field changed by a function, if it is there. -/
def mapField (f : Value → Value) (v : Value) (k : String) : Value :=
  match v with
  | .obj fields => .obj (fields.map fun p => if p.1 = k then (p.1, f p.2) else p)
  | v => v

/-- A node of which every time is shown as true. -/
def withoutTimes (n : InfraNode) : Value :=
  let hide := fun (_ : Value) => Value.bool true
  mapField (["startTime", "endTime", "lastUpdated"].foldl (mapField hide)) n.toValue "status"

instance : Shown AppGraph := ⟨graph AppNode.toValue⟩
instance : Shown Infrastructure := ⟨graph withoutTimes⟩

/-! ### Plans, runs and records -/

instance : Shown Plan.Summary where
  shown s := .object
    [("creates", s.creates), ("updates", s.updates), ("deletes", s.deletes), ("no_ops", s.noOps),
     ("has_changes", s.hasChanges), ("change_count", s.changes), ("text", s.render)]

instance : Shown KeyPlan where
  shown p := .object
    [("key", p.key.render), ("summary", p.summary), ("changed", p.changedIds), ("graph", p.graph)]

instance : Shown Call where
  shown c := .object (c.request.toValue.fields?.getD [] ++ [("plugin", .str c.plugin.name)])

instance : Shown ApplyResponse := ⟨fun a => a.toValue.sorted⟩
instance : Shown Command := ⟨fun c => c.toValue.sorted⟩

instance : Shown NodeResult where
  shown r := .object
    [("id", r.id), ("action", r.action.name), ("success", r.success), ("error", r.error)]

/-- What came of all nodes. -/
def results (l : List NodeResult) : Value :=
  .object [("successful", l.countP (·.success)), ("failed", l.countP (!·.success)), ("results", l)]

/-- The changes of phases from graph to graph. -/
def progress (known : Table Phase) (graphs : List Infrastructure) : Value :=
  (Progress.steps known graphs).map fun t => t.map fun p => [p.1, p.2.name]

instance : Shown HistoryEntry where
  shown e := .object
    [("operation", e.operation.name), ("nodes", e.nodes), ("success", e.success), ("error", e.error)]

instance : Shown Record where
  shown r := .object
    [("version", r.version), ("key", r.key.toValue), ("graph", r.graph), ("history", r.history),
     ("settled", r.isSettled), ("failed", r.failedIds)]

instance : Shown Reconciliation where
  shown r := .object
    [("success", r.success), ("summary", r.summary), ("applied", r.applied), ("errors", r.errors),
     ("text", r.render)]

/-! ### Command lines -/

instance : Shown (String × String) := ⟨fun p => .arr [.str p.1, .str p.2]⟩

instance : Shown Instruction where
  shown
    | .validate warnings => .object [("validate", .object [("warnings", warnings)])]
    | .values vars => .object [("variables", .object [("vars", vars)])]
    | .graph vars => .object [("graph", .object [("vars", vars)])]
    | .plan vars detailed => .object [("plan", .object [("vars", vars), ("detailed", detailed)])]
    | .apply vars yes concurrency =>
        .object [("apply", .object [("vars", vars), ("yes", yes), ("concurrency", concurrency)])]
    | .destroy yes concurrency => .object [("destroy", .object [("yes", yes), ("concurrency", concurrency)])]
    | .build out => .object [("build", .object [("out", out)])]
    | .showState => .object [("state", "show")]
    | .unlockState lock force =>
        .object [("state", .object [("unlock", .object [("lock_id", lock), ("force", force)])])]
    | .deleteState yes => .object [("state", .object [("delete", .object [("yes", yes)])])]

instance : Shown Invocation where
  shown i := .object
    [("config", i.config), ("verbose", i.verbose), ("json", decide (i.style = .json)),
     ("json_logs", decide (i.logStyle = .json)), ("command", i.instruction)]

end Shown

end Groundwork
