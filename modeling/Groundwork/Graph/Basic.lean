import Groundwork.Failure

/-!
# Graphs

A graph holds nodes, each known by its id, and edges between ids; an edge leads from a node to one it
depends on.  Nodes and edges keep the order in which they arrived.  An edge may name an id that is no node:
only `validate` rejects it.

The type carries the invariants that every operation keeps: ids are distinct, edges are distinct, and no
edge leads from a node to itself.

Main statements: writing a node keeps the ids or adds one at the end (`ids_upsert`), and removing a node
keeps the order of all others (`removeNode_nodes`).
-/

namespace Groundwork

/-- Things that have an id. -/
class Identified (N : Type) where
  id : N → String

/-- A dependency: the source depends on the target. -/
structure Edge where
  source : String
  target : String
  deriving DecidableEq, Repr, Inhabited

namespace Edge

/-- The edge in the other direction. -/
def reversed (e : Edge) : Edge := ⟨e.target, e.source⟩

/-- Whether the edge leads from a node to itself. -/
def isLoop (e : Edge) : Bool := e.source = e.target

/-- Whether an id is one of the ends. -/
def touches (e : Edge) (id : String) : Bool := e.source = id || e.target = id

/-- The text of an edge. -/
def render (e : Edge) : String := e.source ++ " -> " ++ e.target

end Edge

/-! ### Lists of nodes and of edges -/

section Lists

variable {N : Type} [Identified N]

/-- The ids of a list of nodes. -/
def idsOf (l : List N) : List String := l.map Identified.id

/-- Writes a node: one with the same id is replaced where it stands, a new one goes to the end. -/
def upsert : List N → N → List N
  | [], n => [n]
  | m :: l, n => if Identified.id m = Identified.id n then n :: l else m :: upsert l n

theorem ids_upsert (l : List N) (n : N) :
    idsOf (upsert l n)
      = if Identified.id n ∈ idsOf l then idsOf l else idsOf l ++ [Identified.id n] := by
  induction l with
  | nil => simp [upsert, idsOf]
  | cons m l ih =>
    by_cases h : Identified.id m = Identified.id n
    · simp [upsert, h, idsOf]
    · have h' : Identified.id n ≠ Identified.id m := fun e => h e.symm
      simp only [idsOf] at ih
      by_cases hm : Identified.id n ∈ l.map Identified.id
      · simp only [upsert, h, if_false, idsOf, List.map_cons, ih, hm, if_true, List.mem_cons,
          or_true]
      · simp only [upsert, h, if_false, idsOf, List.map_cons, ih, hm, List.mem_cons, h', or_self,
          List.cons_append]

theorem nodup_upsert {l : List N} (h : (idsOf l).Nodup) (n : N) : (idsOf (upsert l n)).Nodup := by
  rw [ids_upsert]
  split
  · exact h
  · rename_i hn
    refine List.nodup_append.2 ⟨h, by simp, ?_⟩
    intro a ha b hb
    simp only [List.mem_singleton] at hb
    subst hb
    exact fun e => hn (e ▸ ha)

/-- Adds an edge at the end, unless it is known already or leads from a node to itself. -/
def addEdge (l : List Edge) (e : Edge) : List Edge := if e.isLoop || l.contains e then l else l ++ [e]

theorem nodup_addEdge {l : List Edge} (h : l.Nodup) (e : Edge) : (addEdge l e).Nodup := by
  unfold addEdge
  split
  · exact h
  · rename_i hn
    simp only [Bool.or_eq_true, List.contains_eq_mem, decide_eq_true_eq, not_or] at hn
    refine List.nodup_append.2 ⟨h, by simp, ?_⟩
    intro a ha b hb
    simp only [List.mem_singleton] at hb
    subst hb
    exact fun e => hn.2 (e ▸ ha)

theorem isLoop_addEdge {l : List Edge} (h : ∀ e ∈ l, e.isLoop = false) (e : Edge) :
    ∀ x ∈ addEdge l e, x.isLoop = false := by
  unfold addEdge
  split
  · exact h
  · rename_i hn
    simp only [Bool.or_eq_true, not_or, Bool.not_eq_true] at hn
    intro x hx
    rcases List.mem_append.1 hx with hx | hx
    · exact h x hx
    · simp only [List.mem_singleton] at hx
      exact hx ▸ hn.1

end Lists

/-! ### Graphs and their changes -/

/-- Nodes with distinct ids, and distinct edges between different ids. -/
structure Graph (N : Type) [Identified N] where
  nodes : List N
  edges : List Edge
  ids_nodup : (idsOf nodes).Nodup
  edges_nodup : edges.Nodup
  edges_proper : ∀ e ∈ edges, e.isLoop = false

namespace Graph

variable {N : Type} [Identified N]

/-- No nodes and no edges. -/
def empty : Graph N := ⟨[], [], List.nodup_nil, List.nodup_nil, by simp⟩

instance : Inhabited (Graph N) := ⟨empty⟩

/-- Writes a node. -/
def insertNode (g : Graph N) (n : N) : Graph N :=
  { g with nodes := upsert g.nodes n, ids_nodup := nodup_upsert g.ids_nodup n }

/-- Writes several nodes. -/
def insertNodes (g : Graph N) (l : List N) : Graph N := l.foldl insertNode g

/-- Adds an edge. -/
def insertEdge (g : Graph N) (e : Edge) : Graph N :=
  { g with
    edges := addEdge g.edges e
    edges_nodup := nodup_addEdge g.edges_nodup e
    edges_proper := isLoop_addEdge g.edges_proper e }

/-- Adds several edges. -/
def insertEdges (g : Graph N) (l : List Edge) : Graph N := l.foldl insertEdge g

/-- The graph of some nodes and edges. -/
def ofParts (nodes : List N) (edges : List Edge) : Graph N :=
  (empty.insertNodes nodes).insertEdges edges

/-- Writes all nodes and edges of another graph. -/
def merge (g h : Graph N) : Graph N := (g.insertNodes h.nodes).insertEdges h.edges

/-- Keeps the edges that pass a test. -/
def retainEdges (g : Graph N) (keep : Edge → Bool) : Graph N :=
  { g with
    edges := g.edges.filter keep
    edges_nodup := g.edges_nodup.sublist List.filter_sublist
    edges_proper := fun e he => g.edges_proper e (List.mem_filter.1 he).1 }

/-- Puts other edges in the place of all edges. -/
def setEdges (g : Graph N) (l : List Edge) : Graph N :=
  ({ g with edges := [], edges_nodup := List.nodup_nil, edges_proper := by simp } : Graph N).insertEdges l

/-- Changes nodes without changing their ids. -/
def mapNodes (g : Graph N) (f : N → N) (h : ∀ n, Identified.id (f n) = Identified.id n) : Graph N :=
  { g with
    nodes := g.nodes.map f
    ids_nodup := by
      have : idsOf (g.nodes.map f) = idsOf g.nodes := by simp [idsOf, Function.comp_def, h]
      rw [this]
      exact g.ids_nodup }

/-- Changes the node of one id without changing the id. -/
def update (g : Graph N) (id : String) (f : N → N)
    (h : ∀ n, Identified.id (f n) = Identified.id n) : Graph N :=
  g.mapNodes (fun n => if Identified.id n = id then f n else n) (by intro n; split <;> simp [h])

/-! ### Looking at a graph -/

/-- The ids of all nodes, in order. -/
def ids (g : Graph N) : List String := idsOf g.nodes

/-- The node of an id. -/
def node? (g : Graph N) (id : String) : Option N := g.nodes.find? (Identified.id · = id)

/-- Whether an id is a node. -/
def contains (g : Graph N) (id : String) : Bool := (g.node? id).isSome

/-- The number of nodes. -/
def size (g : Graph N) : Nat := g.nodes.length

/-- Whether an edge is in the graph. -/
def hasEdge (g : Graph N) (source target : String) : Bool := g.edges.contains ⟨source, target⟩

/-- The nodes that a node depends on, in the order of the edges. -/
def dependencies (g : Graph N) (id : String) : List N :=
  (g.edges.filter (·.source = id)).filterMap fun e => g.node? e.target

/-- The nodes that depend on a node, in the order of the edges. -/
def dependents (g : Graph N) (id : String) : List N :=
  (g.edges.filter (·.target = id)).filterMap fun e => g.node? e.source

theorem contains_iff {g : Graph N} {id : String} : g.contains id = true ↔ id ∈ g.ids := by
  simp [contains, node?, ids, idsOf, List.find?_isSome]

/-! ### Removing -/

/-- Removes a node and every edge at it. -/
def removeNode (g : Graph N) (id : String) : Except GraphError (N × Graph N) :=
  match g.node? id with
  | none => .error (.nodeNotFound id)
  | some n => .ok (n, { g.retainEdges (fun e => !e.touches id) with
      nodes := g.nodes.filter (Identified.id · ≠ id)
      ids_nodup := g.ids_nodup.sublist (List.filter_sublist.map _) })

/-- Whether an edge has given ends; a missing end matches any. -/
def endsMatch (source target : Option String) (e : Edge) : Bool :=
  source.all (e.source = ·) && target.all (e.target = ·)

/-- Removes the edges with given ends and counts them; there must be at least one. -/
def removeEdges (g : Graph N) (source target : Option String) : Except GraphError (Nat × Graph N) :=
  let removed := g.edges.countP (endsMatch source target)
  if removed = 0 then .error (.edgeNotFound source target)
  else .ok (removed, g.retainEdges fun e => !endsMatch source target e)

theorem removeNode_nodes {g h : Graph N} {id : String} {n : N} (eq : g.removeNode id = .ok (n, h)) :
    h.nodes = g.nodes.filter (Identified.id · ≠ id)
      ∧ h.edges = g.edges.filter (fun e => !e.touches id) := by
  unfold removeNode at eq
  split at eq
  · cases eq
  · cases eq
    exact ⟨rfl, rfl⟩

end Graph

end Groundwork
