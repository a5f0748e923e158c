import Groundwork.Run

/-!
# Progress

While a run goes on, those who watch it are told which nodes have come to another phase since they were told
last.

Main statement: nodes whose phases are known already are not told again (`changes_self`).
-/

namespace Groundwork

/-- The phases of all nodes, by their ids. -/
def Infrastructure.phases (g : Infrastructure) : Table Phase := g.nodes.map fun n => (n.id, n.status.phase)

namespace Progress

/-- The phases that differ from the known ones. -/
def changes (known phases : Table Phase) : Table Phase := phases.filter fun p => known.lookup p.1 ≠ some p.2

/-- The changes from each graph to the next, where these phases are known at the beginning. -/
def steps (known : Table Phase) (graphs : List Infrastructure) : List (Table Phase) :=
  let all := graphs.map Infrastructure.phases
  ((known :: all).zip all).map fun p => changes p.1 p.2

theorem changes_self {known : Table Phase} (h : ∀ p ∈ known, known.lookup p.1 = some p.2) :
    changes known known = [] := by
  simp only [changes, List.filter_eq_nil_iff]
  intro p hp
  simp [h p hp]

end Progress

end Groundwork
