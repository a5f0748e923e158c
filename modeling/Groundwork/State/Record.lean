import Groundwork.Infrastructure.Graph
import Groundwork.Json.Reader
import Groundwork.Json.Writer
import Groundwork.State.Key

/-!
# Records

A record holds the graph that was applied last under a key, and the latest runs.  It is what the next plan
starts from.

Main statements: the history never grows beyond its limit (`length_history_addEntry`), and the newest entry
is the last (`latest?_addEntry`).
-/

namespace Groundwork

/-- What a run was for. -/
inductive Operation where
  | apply | destroy
  deriving DecidableEq, Repr, Inhabited

/-- The name of an operation. -/
def Operation.name : Operation → String
  | .apply => "apply"
  | .destroy => "destroy"

/-- The operation of a name. -/
def Operation.ofName? (s : String) : Option Operation := [.apply, .destroy].find? (·.name = s)

/-- A run that has taken place. -/
structure HistoryEntry where
  time : Instant
  operation : Operation
  /-- The nodes that the plan changed. -/
  nodes : List String
  success : Bool
  error : Option String
  deriving DecidableEq, Repr, Inhabited

namespace HistoryEntry

/-- The entry of a run that failed if there is an error. -/
def ofRun (time : Instant) (operation : Operation) (nodes : List String) (error : Option String) :
    HistoryEntry :=
  ⟨time, operation, nodes, error.isNone, error⟩

/-- An entry as a document. -/
def toValue (e : HistoryEntry) : Value :=
  .obj
    [("timestamp", Status.timeValue e.time), ("operation", .str e.operation.name),
     ("nodes", .ofStrings e.nodes), ("success", .bool e.success), ("error", Value.ofOption .str e.error)]

/-- Reads an entry. -/
def ofValue? (v : Value) : Option HistoryEntry := do
  let t ← Decode.parts ["timestamp", "operation", "nodes", "success", "error"] v
  return {
    time := ← Decode.needed Status.readTime? t "timestamp"
    operation := ← Decode.needed (Decode.variant Operation.ofName?) t "operation"
    nodes := ← Decode.needed (Decode.list Decode.text) t "nodes"
    success := ← Decode.needed Decode.truth t "success"
    error := ← Decode.optional Decode.text t "error" }

end HistoryEntry

/-- What a store keeps under a key. -/
structure Record where
  version : String
  key : StateKey
  graph : Infrastructure
  lastUpdated : Instant
  /-- The latest runs, from the oldest to the newest. -/
  history : List HistoryEntry

namespace Record

/-- The version of records that is understood. -/
def currentVersion : String := "1.0"

/-- The greatest number of runs that a record remembers. -/
def maxHistory : Nat := 100

/-- A record of nothing. -/
def fresh (now : Instant) (key : StateKey) : Record := ⟨currentVersion, key, Graph.empty, now, []⟩

instance : Inhabited Record := ⟨fresh Instant.epoch default⟩

/-- Puts in another graph. -/
def setGraph (now : Instant) (g : Infrastructure) (r : Record) : Record :=
  { r with graph := g, lastUpdated := now }

/-- Adds a run; the oldest one is forgotten if there would be too many. -/
def addEntry (e : HistoryEntry) (r : Record) : Record :=
  { r with history := (if maxHistory ≤ r.history.length then r.history.drop 1 else r.history) ++ [e] }

/-- The newest run. -/
def latest? (r : Record) : Option HistoryEntry := r.history.getLast?

/-- The nodes that failed. -/
def failedIds (r : Record) : List String :=
  (r.graph.nodes.filter (·.status.phase = .error)).map (·.id)

/-- Whether nothing is left to be done. -/
def isSettled (r : Record) : Bool := r.graph.nodes.all fun n => n.isComplete || n.action = .noOp

/-- A record as a document. -/
def toValue (r : Record) : Value :=
  .obj
    [("version", .str r.version), ("key", r.key.toValue), ("graph", Infrastructure.toValue r.graph),
     ("last_updated", Status.timeValue r.lastUpdated), ("history", .arr (r.history.map HistoryEntry.toValue))]

/-- Reads a record. -/
def ofValue? (v : Value) : Option Record := do
  let t ← Decode.parts ["version", "key", "graph", "last_updated", "history"] v
  return {
    version := ← Decode.needed Decode.text t "version"
    key := ← Decode.needed StateKey.ofValue? t "key"
    graph := ← Decode.needed Infrastructure.ofValue? t "graph"
    lastUpdated := ← Decode.needed Status.readTime? t "last_updated"
    history := ← Decode.defaulted [] (Decode.list HistoryEntry.ofValue?) t "history" }

/-- The text of a record. -/
def render (r : Record) : String := Json.pretty r.toValue

/-- Reads the text of a record. -/
def ofText? (text : String) : Option Record := (Json.document text).bind ofValue?

theorem length_history_addEntry {e : HistoryEntry} {r : Record} (h : r.history.length ≤ maxHistory) :
    (r.addEntry e).history.length ≤ maxHistory := by
  unfold addEntry
  have : 0 < maxHistory := by decide
  split <;> simp only [List.length_append, List.length_drop, List.length_singleton] <;> omega

theorem latest?_addEntry (e : HistoryEntry) (r : Record) : (r.addEntry e).latest? = some e := by
  simp [latest?, addEntry]

end Record

end Groundwork
