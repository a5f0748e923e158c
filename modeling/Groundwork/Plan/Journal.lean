import Groundwork.Log
import Groundwork.Plan

/-!
# The journal of planning

What the log says while a plan is made: what each wanted node becomes, which deletions are left out, and
which updates turn out to change nothing.
-/

namespace Groundwork.Plan

/-- The lines of the log for a plan. -/
def journal (before after : Infrastructure) : List LogLine :=
  let planned := after.nodes.map fun n =>
    let n := next before n
    LogLine.mk .debug ("Planned " ++ n.id ++ " as " ++ n.action.name)
  let skipped := (draft before after).skipped.map fun id =>
    LogLine.mk .warn ("Skipping delete of " ++ id ++ ": the id is taken by a planned node")
  let unchanged := (search Instant.epoch before after).found.map fun p =>
    LogLine.mk .debug (p.1 ++ " unchanged (" ++ short p.2 ++ "), marking no-op")
  planned ++ skipped ++ unchanged

end Groundwork.Plan
