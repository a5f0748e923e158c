import Groundwork.Infrastructure.Graph
import Groundwork.Plan.Fingerprint

/-!
# Finding unchanged nodes

An update changes nothing if its inputs, with the outputs of unchanged nodes put in, give the fingerprint
of the invocation that was applied before.  Whether a node is unchanged thus depends on the nodes it refers
to; `settle` goes over the candidates round by round, each round seeing what the rounds before it found,
until a round finds nothing new.
-/

namespace Groundwork.Plan

/-- An update that may change nothing. -/
structure Candidate where
  id : String
  /-- The fingerprint of the invocation that was applied before. -/
  fingerprint : String
  /-- What that invocation gave. -/
  outputs : Option Value
  state : Option Value
  deriving DecidableEq, Repr, Inhabited

/-- The outputs of the nodes that are known to be unchanged. -/
def unchangedOutputs (g : Infrastructure) : Table Value :=
  (g.nodes.filter (·.action = .noOp)).filterMap fun n => n.outputs.map fun o => (n.id, o)

/-- What becomes of a candidate in a round. -/
inductive Verdict where
  /-- Its references cannot be resolved yet. -/
  | open
  | changed
  /-- It changes nothing; these are its inputs and its fingerprint. -/
  | unchanged (inputs : Value) (hash : String)
  deriving DecidableEq, Repr

/-- Judges a candidate by the outputs of unchanged nodes. -/
def judge (g : Infrastructure) (outputs : Table Value) (c : Candidate) : Verdict :=
  match g.node? c.id with
  | none => .changed
  | some n =>
      match Reference.resolve outputs n.inputs with
      | .error _ => .open
      | .ok inputs =>
          let hash := fingerprint n.plugin n.image inputs
          if hash = c.fingerprint then .unchanged inputs hash else .changed

/-- Marks a node as unchanged: complete, with what it had before. -/
def markUnchanged (now : Instant) (c : Candidate) (inputs : Value) (g : Infrastructure) : Infrastructure :=
  g.update c.id
    (fun n => { n with
      inputs, action := .noOp, status := .completeAt now, outputs := c.outputs, state := c.state })
    fun _ => rfl

/-- The state of the search. -/
structure Search where
  graph : Infrastructure
  /-- The candidates that are still open. -/
  candidates : List Candidate
  /-- The ids found to be unchanged with their fingerprints, in order. -/
  found : List (String × String)

/-- Judges one candidate and keeps it if it is open. -/
def Search.consider (now : Instant) (outputs : Table Value) (s : Search) (c : Candidate) : Search :=
  match judge s.graph outputs c with
  | .open => { s with candidates := s.candidates ++ [c] }
  | .changed => s
  | .unchanged inputs hash =>
      { s with graph := markUnchanged now c inputs s.graph, found := s.found ++ [(c.id, hash)] }

/-- Judges all open candidates by what is known before the round. -/
def Search.round (now : Instant) (s : Search) : Search :=
  s.candidates.foldl (Search.consider now (unchangedOutputs s.graph)) { s with candidates := [] }

/-- Rounds until one finds nothing, `n` of them at most. -/
def Search.settle (now : Instant) : Nat → Search → Search
  | 0, s => s
  | n + 1, s =>
      let next := s.round now
      if next.found.length = s.found.length then next else next.settle now n

/-- Marks the unchanged nodes among the candidates.  A round with a find leaves fewer candidates, so one
round more than there are candidates is enough. -/
def findUnchanged (now : Instant) (g : Infrastructure) (candidates : List Candidate) : Search :=
  Search.settle now (candidates.length + 1) ⟨g, candidates, []⟩

end Groundwork.Plan
