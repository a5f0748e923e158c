import Groundwork.Config.Check
import Groundwork.Reconcile
import Groundwork.Report.Grid
import Groundwork.Variable.Metadata

/-!
# Reports

What users are told about plans, graphs, variables, records and checks: as text for people, or as a document
of JSON for programs.  Texts end with a line end, and so do documents.

Main statements: a text that is cut is never longer than it may be (`length_shorten`), and one that is short
enough stays as it is (`shorten_of_length_le`).
-/

namespace Groundwork

/-- The two forms of a report. -/
inductive ReportStyle where
  | text | json
  deriving DecidableEq, Repr, Inhabited

namespace ReportStyle

/-- The name of a form. -/
def name : ReportStyle → String
  | .text => "text"
  | .json => "json"

/-- The form of a name. -/
def ofName? (s : String) : Option ReportStyle := [.text, .json].find? (·.name = s)

end ReportStyle

namespace Report

/-! ### Pieces -/

/-- A document. -/
def document (v : Value) : String := Json.pretty v ++ "\n"

/-- A document whose fields are in the order of their names. -/
def sortedDocument (fields : List (String × Value)) : String := document (Value.obj fields).sorted

/-- Lines, each with its end. -/
def ofLines (lines : List String) : String := String.join (lines.map (· ++ "\n"))

/-- A text cut to a length, with three dots in the place of what is cut off. -/
def shorten (limit : Nat) (s : List Char) : List Char :=
  if s.length ≤ limit then s else s.take (limit - 3) ++ ['.', '.', '.']

/-- The greatest length of a text in a grid. -/
def cellLimit : Nat := 40

/-- A text as it stands in a grid. -/
def cell (s : String) : String := String.ofList (shorten cellLimit s.toList)

/-- An action with a mark in front of changes. -/
def actionMark : Action → String
  | .create => "+create"
  | .update => "~update"
  | .delete => "-delete"
  | .noOp => "no-op"

/-- The grid of the nodes of a graph. -/
def nodeGrid (nodes : List InfraNode) : Report.Grid :=
  { header := ["Action", "Node", "Plugin", "Image", "Status"]
    rows := nodes.map fun n =>
      [actionMark n.action, n.id, n.plugin.name, cell n.image, n.status.phase.name] }

/-- A heading and an item for each text, if there are any. -/
def itemized (heading : String) (items : List String) : String :=
  if items.isEmpty then "" else "\n⚠ " ++ heading ++ ":\n" ++ ofLines (items.map ("   - " ++ ·))

/-- The counts of a summary with the time when its plan was made. -/
def summaryValue (created : Instant) (s : Plan.Summary) : Value :=
  .obj
    [("created_at", Status.timeValue created), ("creates", .ofNat s.creates),
     ("updates", .ofNat s.updates), ("deletes", .ofNat s.deletes), ("no_ops", .ofNat s.noOps)]

/-! ### Reports -/

/-- A plan that was made at some time.  Nodes that stay as they are appear only in detail. -/
def plan (style : ReportStyle) (created : Instant) (detailed : Bool) (p : KeyPlan) : String :=
  let s := p.summary
  match style with
  | .json => sortedDocument
      [("key", p.key.toValue), ("summary", summaryValue created s), ("graph", Infrastructure.toValue p.graph)]
  | .text =>
      if s.hasChanges then
        let shown := p.graph.nodes.filter fun n => detailed || n.action ≠ .noOp
        "\nPlan for " ++ p.key.render ++ "\n\n" ++ (nodeGrid shown).render ++ "\n" ++ s.render ++ "\n"
      else "✓ No changes required - infrastructure is up to date.\n"

/-- A graph: its nodes, each with what it depends on. -/
def graph (style : ReportStyle) (g : Infrastructure) : String :=
  match style with
  | .json => document (Infrastructure.toValue g)
  | .text =>
      let node (n : InfraNode) : List String :=
        (n.id ++ " (" ++ n.image ++ ")") :: (g.dependencies n.id).map fun d => "  └─ " ++ d.id
      ofLines (g.nodes.flatMap node) ++ s!"\n{g.size} modules, {g.edges.length} edges\n"

/-- A value as it stands in a grid. -/
def valueText : Value → String
  | .str s => s
  | v => Json.compact v

/-- Variables with their values. -/
def values (style : ReportStyle) (schema : Schema) (known : Table Value) : String :=
  match style with
  | .json => sortedDocument
      [("schema", .obj (schema.mapValues Metadata.toValue)), ("values", .obj known)]
  | .text =>
      if schema.isEmpty then "No variables declared.\n"
      else
        let row (p : String × Metadata) : List String :=
          [p.1, p.2.type, (known.lookup p.1).elim "(unset)" fun v => cell (valueText v),
           ", ".intercalate (p.2.uses.map (·.name))]
        Grid.render ⟨["Name", "Type", "Value", "Depends on"], schema.map row⟩

/-- What came of a run of a plan that was made at some time. -/
def outcome (style : ReportStyle) (created : Instant) (r : Reconciliation) : String :=
  match style with
  | .json => document (.obj
      [("success", .bool r.success), ("summary", summaryValue created r.summary),
       ("applied", .ofNat r.applied), ("errors", .ofStrings r.errors)])
  | .text =>
      let head := if r.success then "✓ Apply complete" else "✗ Apply failed"
      let counts := [("Created", r.summary.creates), ("Updated", r.summary.updates),
        ("Deleted", r.summary.deletes), ("Unchanged", r.summary.noOps)]
      head ++ "\n\n" ++ ofLines (counts.map fun p => "   " ++ p.1 ++ ": " ++ toString p.2)
        ++ itemized "Errors" r.errors

/-- The line about a lock. -/
def lockLine (now : Instant) (l : Lock) : String :=
  s!"   Locked by {l.holder} ({l.operation}, {l.remaining now}s left, id {l.id})"

/-- The line about a run. -/
def historyLine (e : HistoryEntry) : String :=
  let mark := if e.success then "✓" else "✗"
  let error := e.error.elim "" (": " ++ ·)
  s!"     {mark} {e.time.renderMinute} - {e.operation.name} ({e.nodes.length} nodes)" ++ error

/-- How many runs are told about. -/
def historyLimit : Nat := 5

/-- A record and its lock. -/
def record (style : ReportStyle) (now : Instant) (r : Record) (lock : Option Lock) : String :=
  match style with
  | .json => sortedDocument [("record", r.toValue), ("lock", Value.ofOption Lock.toValue lock)]
  | .text =>
      let head := ["   Version: " ++ r.version, "   Last updated: " ++ r.lastUpdated.renderPlain,
        "   Nodes: " ++ toString r.graph.size]
      let nodes := if r.graph.nodes.isEmpty then "" else "\n" ++ (nodeGrid r.graph.nodes).render
      let history := (r.history.reverse.take historyLimit).map historyLine
      let heading := s!"\n   Recent history ({r.history.length}):"
      "\nState: " ++ r.key.render ++ "\n\n" ++ ofLines (head ++ (lock.map (lockLine now)).toList) ++ nodes
        ++ (if history.isEmpty then "" else ofLines (heading :: history))

/-- What a check has found.  Warnings appear in a text only on request. -/
def findings (style : ReportStyle) (showWarnings : Bool) (f : Findings) : String :=
  match style with
  | .json => sortedDocument
      [("valid", .bool f.isValid), ("errors", .ofStrings (f.issues.map Issue.render)),
       ("warnings", .ofStrings f.warnings)]
  | .text =>
      "✓ Configuration is valid\n" ++ (if showWarnings then itemized "Warnings" f.warnings else "")

/-- A line of text. -/
def message (style : ReportStyle) (text : String) : String :=
  match style with
  | .json => sortedDocument [("message", .str text)]
  | .text => text ++ "\n"

/-! ### Small facts -/

theorem shorten_of_length_le {limit : Nat} {s : List Char} (h : s.length ≤ limit) :
    shorten limit s = s := by
  simp [shorten, h]

theorem length_shorten {limit : Nat} (s : List Char) (h : 3 ≤ limit) :
    (shorten limit s).length ≤ limit := by
  unfold shorten
  split
  · assumption
  · simp only [List.length_append, List.length_take, List.length_cons, List.length_nil]
    omega

end Report

end Groundwork
