import Groundwork.Graph.Basic
import Groundwork.Data.Table

/-!
# Order of dependencies

`Graph.order` lists the ids of a graph so that each comes after all it depends on.  It keeps, for every id,
the number of its dependencies that are not listed yet, and a queue of the ids for which this number is
zero.  If ids are left over, they lie on a cycle or depend on one.

`Graph.validate` asks in addition that both ends of every edge are nodes.
-/

namespace Groundwork.Graph

variable {N : Type} [Identified N]

/-- The edges whose ends are both nodes. -/
def properEdges (g : Graph N) : List Edge :=
  g.edges.filter fun e => g.contains e.source && g.contains e.target

/-- A stage of the listing. -/
structure Listing where
  /-- For every id, how many of its dependencies are not listed yet. -/
  pending : Table Nat
  /-- The ids that may be listed next. -/
  ready : List String
  /-- The ids listed so far. -/
  listed : List String
  deriving DecidableEq, Repr

/-- The number of dependencies of an id that are not listed yet. -/
def Listing.count (s : Listing) (id : String) : Nat := (s.pending.lookup id).getD 0

/-- Counts one dependency of an id as listed; with the last one the id joins the queue. -/
def Listing.release (s : Listing) (id : String) : Listing :=
  let left := s.count id - 1
  { s with
    pending := s.pending.put id left
    ready := if left = 0 then s.ready ++ [id] else s.ready }

/-- Lists the first id of the queue. -/
def Listing.step (edges : List Edge) (s : Listing) : Listing :=
  match s.ready with
  | [] => s
  | id :: ready =>
      ((edges.filter (·.target = id)).map (·.source)).foldl Listing.release
        { s with ready, listed := s.listed ++ [id] }

/-- The stage before anything is listed. -/
def startListing (g : Graph N) : Listing :=
  let pending := g.ids.map fun id => (id, g.properEdges.countP (·.source = id))
  { pending
    ready := (pending.filter (·.2 = 0)).map (·.1)
    listed := [] }

/-- Steps as long as the queue has an id, `n` of them at most. -/
def Listing.run (edges : List Edge) : Nat → Listing → Listing
  | 0, s => s
  | n + 1, s => if s.ready.isEmpty then s else (s.step edges).run edges n

/-- The stage at which the queue is empty. -/
def finalListing (g : Graph N) : Listing := g.startListing.run g.properEdges g.size

/-- All ids, each after its dependencies; edges with a missing end are ignored. -/
def order (g : Graph N) : Except GraphError (List String) :=
  let final := g.finalListing
  if final.listed.length = g.size then .ok final.listed
  else .error (.cycle (g.ids.filter fun id => 0 < final.count id))

/-- The first end of an edge that is no node. -/
def missingEnd (g : Graph N) (e : Edge) : Option String :=
  [e.source, e.target].find? fun id => !g.contains id

/-- Checks that the ends of all edges are nodes and that no node depends on itself in the end. -/
def validate (g : Graph N) : Except GraphError Unit :=
  match g.edges.findSome? fun e => (g.missingEnd e).map fun m => (e, m) with
  | some (e, m) => .error (.danglingEdge e.source e.target m)
  | none => g.order.map fun _ => ()

end Groundwork.Graph
