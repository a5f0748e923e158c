import Groundwork.Log
import Groundwork.Run

/-!
# The journal of a run

What the log says of a run: what is handed to plugins, what comes back, and how many nodes were applied.  A
run has no clock of its own and is told as taking no time.

Main statement: a run in which nothing happened and which failed is told by its first line alone
(`journal_of_failure`).
-/

namespace Groundwork.Run

/-- The lines about an event.  A call is followed by the lines of its plugin. -/
def eventLines (told : String → List LogLine) : RunEvent → List LogLine
  | .started c => ⟨.info, s!"{c.action.name} {c.id} via {c.plugin.name}"⟩ :: told c.id
  | .unchanged id => [⟨.debug, id ++ " unchanged"⟩]
  | .finished r =>
      match r.error with
      | none => [⟨.info, s!"{r.action.name} {r.id} complete in 0.0s"⟩]
      | some e => [⟨.error, s!"{r.action.name} {r.id} failed: {e}"⟩]

/-- The lines of the log for a run that has come to its end, given the lines of the plugin during the call for
each node. -/
def journal (o : RunOptions) (told : String → List LogLine) (r : Run) : List LogLine :=
  let first := LogLine.mk .info s!"Applying graph with {r.graph.size} nodes (concurrency {o.limit})"
  let last := match r.outcome with
    | .ok results => [LogLine.mk .info s!"Applied {results.countP (·.success)} nodes in 0.0s"]
    | .error _ => []
  first :: r.events.flatMap (eventLines told) ++ last

theorem journal_of_failure {o : RunOptions} {told : String → List LogLine} {r : Run} {e : RunError}
    (h : r.failure = some e) (he : r.events = []) :
    r.journal o told =
      [⟨.info, s!"Applying graph with {r.graph.size} nodes (concurrency {o.limit})"⟩] := by
  simp [journal, outcome, h, he]

end Groundwork.Run
