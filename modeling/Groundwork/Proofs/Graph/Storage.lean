import Groundwork.Proofs.Infrastructure.Renaming

/-!
# Graphs as they are stored

A graph may be stored as a table of nodes under names and a list of edges.  Nothing in such a storage says that the
name of a node is its id, that an edge is there once, or that it joins different nodes: all this has to come from the
operations that made it.  They work on names where they can: a merge copies entries under the names that they have,
and a removal looks for a name.

A history tells how a graph was made: from nothing, from parts or from a document, and by one operation after another.
It runs on storages and on graphs.

Main statements: each operation does the same to the storage of a graph as to the graph (`ofGraph_merge` and its like),
so that a history leaves the storage of the graph that it makes (`History.storage_eq`); that storage is sound, a
written node takes the place of the one it replaces, and removals take out what they name, tell so, and leave all else
in order (`storage_of_history`).
-/

namespace Groundwork

/-! ### Counting what is left out -/

section Lists

variable {α : Type} {p : α → Bool} {l : List α}

/-- What is missing after items were left out are the items that were left out. -/
theorem length_sub_filter_not : l.length - (l.filter fun a => !p a).length = l.countP p := by
  have hcount := List.length_eq_countP_add_countP (l := l) p
  have hrest : (l.filter fun a => !p a).length = l.countP fun a => ¬ p a := by
    rw [List.countP_eq_length_filter]
    simp
  omega

theorem filter_not_eq_self (h : l.countP p = 0) : (l.filter fun a => !p a) = l := by
  refine List.filter_eq_self.2 fun a ha => ?_
  rw [Bool.eq_false_iff.2 (List.countP_eq_zero.1 h a ha)]
  rfl

end Lists

/-! ### Storages -/

/-- Nodes under names, in order, and edges. -/
structure Storage (N : Type) where
  entries : Table N
  edges : List Edge

namespace Storage

variable {N : Type} [Identified N]

/-- Nothing is stored. -/
def empty : Storage N := ⟨[], []⟩

/-- Stores a node under its id. -/
def insertNode (s : Storage N) (n : N) : Storage N := { s with entries := s.entries.put (Identified.id n) n }

/-- Stores several nodes. -/
def insertNodes (s : Storage N) (l : List N) : Storage N := l.foldl insertNode s

/-- Stores an edge, unless it is there already or leads from a node to itself. -/
def insertEdge (s : Storage N) (e : Edge) : Storage N := { s with edges := addEdge s.edges e }

/-- Stores several edges. -/
def insertEdges (s : Storage N) (l : List Edge) : Storage N := l.foldl insertEdge s

/-- Stores some nodes and edges. -/
def ofParts (nodes : List N) (edges : List Edge) : Storage N := (empty.insertNodes nodes).insertEdges edges

/-- Stores what a document holds. -/
def ofValue? (node : Value → Option N) (v : Value) : Option (Storage N) := do
  let t ← Decode.parts ["nodes", "edges"] v
  let nodes ← Decode.defaulted [] (Decode.list node) t "nodes"
  let edges ← Decode.defaulted [] (Decode.list Edge.ofValue?) t "edges"
  return ofParts nodes edges

/-- Copies the entries of another storage under the names that they have there, and its edges. -/
def merge (s t : Storage N) : Storage N :=
  insertEdges { s with entries := t.entries.foldl (fun u p => u.put p.1 p.2) s.entries } t.edges

/-- Keeps the edges that pass a test. -/
def retainEdges (s : Storage N) (keep : Edge → Bool) : Storage N := { s with edges := s.edges.filter keep }

/-- Puts other edges in the place of all edges. -/
def setEdges (s : Storage N) (l : List Edge) : Storage N := insertEdges { s with edges := [] } l

/-- Takes out the entry of a name and every edge at it, if there is that entry, and answers with its node. -/
def removeNode (s : Storage N) (id : String) : Except GraphError N × Storage N :=
  match s.entries.lookup id with
  | none => (.error (.nodeNotFound id), s)
  | some n => (.ok n, ⟨s.entries.erase id, s.edges.filter fun e => !e.touches id⟩)

/-- Takes out the edges with given ends, and answers with the number of edges that are missing then. -/
def removeEdges (s : Storage N) (source target : Option String) : Except GraphError Nat × Storage N :=
  let rest := s.retainEdges fun e => !Graph.endsMatch source target e
  let removed := s.edges.length - rest.edges.length
  (if removed = 0 then .error (.edgeNotFound source target) else .ok removed, rest)

/-- Renames the nodes that references and edges name; the entries keep their names. -/
def renameNodes (names : Table String) (s : Storage InfraNode) : Storage InfraNode :=
  if names.isEmpty then s
  else
    setEdges { s with entries := s.entries.mapValues (Infrastructure.renameInputs names) }
      (s.edges.map (Infrastructure.renameEdge names))

/-! ### The storage of a graph -/

/-- Nodes under their ids. -/
def filed (l : List N) : Table N := l.map fun n => (Identified.id n, n)

/-- The storage of a graph. -/
def ofGraph (g : Graph N) : Storage N := ⟨filed g.nodes, g.edges⟩

theorem keys_filed (l : List N) : (filed l).keys = idsOf l := List.map_map

theorem filed_upsert (l : List N) (n : N) : filed (upsert l n) = (filed l).put (Identified.id n) n := by
  induction l with
  | nil => rfl
  | cons m l ih =>
    show filed (upsert (m :: l) n) = Table.put ((Identified.id m, m) :: filed l) (Identified.id n) n
    unfold upsert Table.put
    split
    · rfl
    · exact congrArg ((Identified.id m, m) :: ·) ih

theorem lookup_filed (l : List N) (id : String) : (filed l).lookup id = l.find? (Identified.id · = id) := by
  induction l with
  | nil => rfl
  | cons n l ih =>
    show List.lookup id ((Identified.id n, n) :: filed l) = _
    rw [List.lookup_cons, List.find?_cons, ih]
    by_cases hid : Identified.id n = id
    · simp [hid]
    · have hne : (id == Identified.id n) = false := by simpa using Ne.symm hid
      simp [hid, hne]

theorem erase_filed (l : List N) (id : String) : (filed l).erase id = filed (l.filter (Identified.id · ≠ id)) := by
  rw [Table.erase, filed, List.filter_map]
  rfl

theorem insertNodes_eq (s : Storage N) (l : List N) :
    s.insertNodes l = { s with entries := (filed l).foldl (fun u p => u.put p.1 p.2) s.entries } := by
  induction l generalizing s with
  | nil => rfl
  | cons n l ih => exact ih (s.insertNode n)

omit [Identified N] in
@[simp] theorem entries_insertEdges (s : Storage N) (l : List Edge) : (s.insertEdges l).entries = s.entries := by
  induction l generalizing s with
  | nil => rfl
  | cons e l ih => exact ih (s.insertEdge e)

omit [Identified N] in
theorem entries_merge (s t : Storage N) :
    (s.merge t).entries = t.entries.foldl (fun u p => u.put p.1 p.2) s.entries := entries_insertEdges _ t.edges

/-! ### What operations do to the storage of a graph -/

theorem ofGraph_insertNode (g : Graph N) (n : N) : ofGraph (g.insertNode n) = (ofGraph g).insertNode n :=
  congrArg (Storage.mk · g.edges) (filed_upsert g.nodes n)

theorem ofGraph_insertNodes (g : Graph N) (l : List N) : ofGraph (g.insertNodes l) = (ofGraph g).insertNodes l := by
  induction l generalizing g with
  | nil => rfl
  | cons n l ih =>
    show ofGraph ((g.insertNode n).insertNodes l) = _
    rw [ih, ofGraph_insertNode]
    rfl

theorem ofGraph_insertEdges (g : Graph N) (l : List Edge) : ofGraph (g.insertEdges l) = (ofGraph g).insertEdges l := by
  induction l generalizing g with
  | nil => rfl
  | cons e l ih => exact ih (g.insertEdge e)

theorem ofGraph_ofParts (nodes : List N) (edges : List Edge) :
    ofGraph (.ofParts nodes edges) = ofParts nodes edges := by
  rw [Graph.ofParts, ofGraph_insertEdges, ofGraph_insertNodes]
  rfl

theorem map_ofGraph_ofValue? (node : Value → Option N) (v : Value) :
    (Graph.ofValue? node v).map ofGraph = ofValue? node v := by
  unfold Graph.ofValue? ofValue?
  cases Decode.parts ["nodes", "edges"] v with
  | none => rfl
  | some t =>
    show Option.map ofGraph ((Decode.defaulted [] (Decode.list node) t "nodes").bind _)
      = (Decode.defaulted [] (Decode.list node) t "nodes").bind _
    cases Decode.defaulted [] (Decode.list node) t "nodes" with
    | none => rfl
    | some nodes =>
      show Option.map ofGraph ((Decode.defaulted [] (Decode.list Edge.ofValue?) t "edges").bind _)
        = (Decode.defaulted [] (Decode.list Edge.ofValue?) t "edges").bind _
      cases Decode.defaulted [] (Decode.list Edge.ofValue?) t "edges" with
      | none => rfl
      | some edges => exact congrArg some (ofGraph_ofParts nodes edges)

/-- A merge copies nodes under their ids, for these are their names. -/
theorem ofGraph_merge (g k : Graph N) : ofGraph (g.merge k) = (ofGraph g).merge (ofGraph k) := by
  rw [Graph.merge, ofGraph_insertEdges, ofGraph_insertNodes, insertNodes_eq]
  rfl

theorem ofGraph_setEdges (g : Graph N) (l : List Edge) : ofGraph (g.setEdges l) = (ofGraph g).setEdges l :=
  ofGraph_insertEdges _ l

theorem ofGraph_renameNodes (names : Table String) (g : Infrastructure) :
    ofGraph (Infrastructure.renameNodes names g) = (ofGraph g).renameNodes names := by
  unfold Infrastructure.renameNodes renameNodes
  split
  · rfl
  · rw [ofGraph_setEdges]
    -- the nodes change, but not their ids
    have hentries : filed (g.nodes.map (Infrastructure.renameInputs names))
        = (filed g.nodes).mapValues (Infrastructure.renameInputs names) := by
      rw [filed, filed, Table.mapValues, List.map_map, List.map_map]
      rfl
    exact congrArg (fun t => setEdges (Storage.mk t g.edges) (g.edges.map (Infrastructure.renameEdge names))) hentries

end Storage

namespace Graph

variable {N : Type} [Identified N]

/-- What is answered when something is to be removed from a graph, and the graph after that. -/
def afterwards {α : Type} (g : Graph N) : Except GraphError (α × Graph N) → Except GraphError α × Graph N
  | .ok (a, rest) => (.ok a, rest)
  | .error cause => (.error cause, g)

end Graph

namespace Storage

variable {N : Type} [Identified N]

theorem removeNode_ofGraph (g : Graph N) (id : String) :
    (ofGraph g).removeNode id = Prod.map (fun a => a) ofGraph (g.afterwards (g.removeNode id)) := by
  unfold removeNode Graph.removeNode
  show (match (filed g.nodes).lookup id with | none => _ | some n => _) = _
  rw [lookup_filed]
  show _ = Prod.map _ _ (g.afterwards (match g.nodes.find? (Identified.id · = id) with | none => _ | some n => _))
  cases g.nodes.find? (Identified.id · = id) with
  | none => rfl
  | some n =>
    show (_, (⟨(filed g.nodes).erase id, _⟩ : Storage N)) = _
    rw [erase_filed]
    rfl

theorem removeEdges_ofGraph (g : Graph N) (source target : Option String) :
    (ofGraph g).removeEdges source target
      = Prod.map (fun a => a) ofGraph (g.afterwards (g.removeEdges source target)) := by
  unfold removeEdges retainEdges Graph.removeEdges
  dsimp only
  rw [length_sub_filter_not]
  show (if g.edges.countP _ = 0 then _ else _, _) = _
  split
  · rename_i hnone
    exact congrArg (fun l => (_, Storage.mk (filed g.nodes) l)) (filter_not_eq_self hnone)
  · rfl

/-! ### Histories -/

/-- Whether each node is stored under its own id, each id and each edge is there once, and no edge leads from a node
to itself. -/
structure Sound (s : Storage N) : Prop where
  own : ∀ p ∈ s.entries, p.1 = Identified.id p.2
  ids_distinct : s.entries.keys.Nodup
  edges_distinct : s.edges.Nodup
  proper : ∀ e ∈ s.edges, e.source ≠ e.target

theorem sound_ofGraph (g : Graph N) : (ofGraph g).Sound where
  own := by
    intro p hp
    obtain ⟨n, -, rfl⟩ := List.mem_map.1 hp
    rfl
  ids_distinct := by
    show (filed g.nodes).keys.Nodup
    rw [keys_filed]
    exact g.ids_nodup
  edges_distinct := g.edges_nodup
  proper := fun e he => of_decide_eq_false (g.edges_proper e he)

/-- What is there after a node was written: it stands where the node with its id stood, or at the end if there was
none; all else is as it was. -/
def Written (s : Storage N) (n : N) (t : Storage N) : Prop :=
  t.edges = s.edges ∧
    ((∃ i m, s.entries[i]? = some (Identified.id n, m) ∧ t.entries = s.entries.set i (Identified.id n, n)) ∨
      Identified.id n ∉ s.entries.keys ∧ t.entries = s.entries ++ [(Identified.id n, n)])

/-- What is there, and what is answered, after a node was to be removed: the node is gone with the edges at it, and all
else stands in the order that it had; or there is no such node, and nothing has changed. -/
def NodeRemoved (s : Storage N) (id : String) : Except GraphError N × Storage N → Prop
  | (.ok n, t) => (∃ l r, s.entries = l ++ (id, n) :: r ∧ t.entries = l ++ r) ∧
      t.edges = s.edges.filter fun e => e.source ≠ id ∧ e.target ≠ id
  | (.error cause, t) => cause = .nodeNotFound id ∧ id ∉ s.entries.keys ∧ t = s

/-- What is there, and what is answered, after edges were to be removed: the edges with the given ends are gone, as
many as the answer tells, and all others stand in the order that they had; or there are none, and nothing has
changed. -/
def EdgesRemoved (s : Storage N) (source target : Option String) : Except GraphError Nat × Storage N → Prop
  | (.ok k, t) => 0 < k ∧ k = (s.edges.filter (Graph.endsMatch source target)).length ∧
      t = ⟨s.entries, s.edges.filter fun e => !Graph.endsMatch source target e⟩
  | (.error cause, t) => cause = .edgeNotFound source target ∧
      (∀ e ∈ s.edges, Graph.endsMatch source target e = false) ∧ t = s

theorem written_insertNode (s : Storage N) (n : N) : Written s n (s.insertNode n) :=
  ⟨rfl, s.entries.put_cases (Identified.id n) n⟩

theorem nodeRemoved_removeNode {s : Storage N} (hs : s.Sound) (id : String) :
    NodeRemoved s id (s.removeNode id) := by
  unfold removeNode
  cases hn : s.entries.lookup id with
  | none => exact ⟨rfl, Table.lookup_eq_none_iff.1 hn, rfl⟩
  | some n =>
    refine ⟨Table.exists_erase_eq hs.ids_distinct hn, List.filter_congr fun e _ => ?_⟩
    simp [Edge.touches]

omit [Identified N] in
theorem edgesRemoved_removeEdges (s : Storage N) (source target : Option String) :
    EdgesRemoved s source target (s.removeEdges source target) := by
  unfold removeEdges retainEdges
  dsimp only
  rw [length_sub_filter_not]
  split
  · rename_i hnone
    refine ⟨rfl, fun e he => ?_, congrArg (Storage.mk s.entries) (filter_not_eq_self hnone)⟩
    exact Bool.eq_false_iff.2 (List.countP_eq_zero.1 hnone e he)
  · rename_i hsome
    exact ⟨Nat.pos_of_ne_zero hsome, List.countP_eq_length_filter, rfl⟩

end Storage

/-- How a graph was made. -/
inductive History : (N : Type) → [Identified N] → Type 1 where
  | empty {N : Type} {_ : Identified N} : History N
  | ofParts {N : Type} {_ : Identified N} (nodes : List N) (edges : List Edge) : History N
  /-- A document is read; one that cannot be read makes nothing. -/
  | read {N : Type} {_ : Identified N} (node : Value → Option N) (v : Value) : History N
  | insertNode {N : Type} {_ : Identified N} (h : History N) (n : N) : History N
  | insertNodes {N : Type} {_ : Identified N} (h : History N) (l : List N) : History N
  | insertEdge {N : Type} {_ : Identified N} (h : History N) (e : Edge) : History N
  | insertEdges {N : Type} {_ : Identified N} (h : History N) (l : List Edge) : History N
  | setEdges {N : Type} {_ : Identified N} (h : History N) (l : List Edge) : History N
  | retainEdges {N : Type} {_ : Identified N} (h : History N) (keep : Edge → Bool) : History N
  /-- A graph with a history of its own is merged into this one. -/
  | merge {N : Type} {_ : Identified N} (h k : History N) : History N
  | removeNode {N : Type} {_ : Identified N} (h : History N) (id : String) : History N
  | removeEdges {N : Type} {_ : Identified N} (h : History N) (source target : Option String) : History N
  | renameNodes (h : History InfraNode) (names : Table String) : History InfraNode

namespace History

/-- The storage that a history leaves. -/
def storage : {N : Type} → [Identified N] → History N → Storage N
  | _, _, .empty => .empty
  | _, _, .ofParts nodes edges => .ofParts nodes edges
  | _, _, .read node v => (Storage.ofValue? node v).getD .empty
  | _, _, .insertNode h n => h.storage.insertNode n
  | _, _, .insertNodes h l => h.storage.insertNodes l
  | _, _, .insertEdge h e => h.storage.insertEdge e
  | _, _, .insertEdges h l => h.storage.insertEdges l
  | _, _, .setEdges h l => h.storage.setEdges l
  | _, _, .retainEdges h keep => h.storage.retainEdges keep
  | _, _, .merge h k => h.storage.merge k.storage
  | _, _, .removeNode h id => (h.storage.removeNode id).2
  | _, _, .removeEdges h source target => (h.storage.removeEdges source target).2
  | _, _, .renameNodes h names => h.storage.renameNodes names

/-- The graph that a history makes. -/
def graph : {N : Type} → [Identified N] → History N → Graph N
  | _, _, .empty => .empty
  | _, _, .ofParts nodes edges => .ofParts nodes edges
  | _, _, .read node v => (Graph.ofValue? node v).getD .empty
  | _, _, .insertNode h n => h.graph.insertNode n
  | _, _, .insertNodes h l => h.graph.insertNodes l
  | _, _, .insertEdge h e => h.graph.insertEdge e
  | _, _, .insertEdges h l => h.graph.insertEdges l
  | _, _, .setEdges h l => h.graph.setEdges l
  | _, _, .retainEdges h keep => h.graph.retainEdges keep
  | _, _, .merge h k => h.graph.merge k.graph
  | _, _, .removeNode h id => (h.graph.afterwards (h.graph.removeNode id)).2
  | _, _, .removeEdges h source target => (h.graph.afterwards (h.graph.removeEdges source target)).2
  | _, _, .renameNodes h names => Infrastructure.renameNodes names h.graph

open Storage

/-- **A history leaves the storage of the graph that it makes.** -/
theorem storage_eq {N : Type} [Identified N] (h : History N) : h.storage = ofGraph h.graph := by
  induction h with
  | empty => rfl
  | ofParts nodes edges => exact (ofGraph_ofParts nodes edges).symm
  | read node v =>
    rw [storage, graph, ← map_ofGraph_ofValue?]
    cases Graph.ofValue? node v <;> rfl
  | insertNode h n ih => rw [storage, graph, ofGraph_insertNode, ih]
  | insertNodes h l ih => rw [storage, graph, ofGraph_insertNodes, ih]
  | insertEdge h e ih => rw [storage, graph, ih]; rfl
  | insertEdges h l ih => rw [storage, graph, ofGraph_insertEdges, ih]
  | setEdges h l ih => rw [storage, graph, ofGraph_setEdges, ih]
  | retainEdges h keep ih => rw [storage, graph, ih]; rfl
  | merge h k ihh ihk => rw [storage, graph, ofGraph_merge, ihh, ihk]
  | removeNode h id ih => rw [storage, graph, ih, removeNode_ofGraph]; rfl
  | removeEdges h source target ih => rw [storage, graph, ih, removeEdges_ofGraph]; rfl
  | renameNodes h names ih => rw [storage, graph, ofGraph_renameNodes, ih]

/-- **Every history leaves a sound storage**, which is that of the graph that it makes.  A node that is written next
takes the place of the one that it replaces, and however many are written or merged, the ids keep their places.  A node
or edges to be removed are removed with nothing else, in the storage as in the graph, and what is answered tells so. -/
theorem storage_of_history {N : Type} [Identified N] (h : History N) :
    h.storage = ofGraph h.graph ∧ h.storage.Sound ∧
    (∀ n, Written h.storage n (h.insertNode n).storage) ∧
    (∀ l, h.storage.entries.keys <+: (h.insertNodes l).storage.entries.keys) ∧
    (∀ k : History N, h.storage.entries.keys <+: (h.merge k).storage.entries.keys) ∧
    (∀ id, NodeRemoved h.storage id (h.storage.removeNode id) ∧
      h.storage.removeNode id = Prod.map (fun a => a) ofGraph (h.graph.afterwards (h.graph.removeNode id))) ∧
    ∀ source target, EdgesRemoved h.storage source target (h.storage.removeEdges source target) ∧
      h.storage.removeEdges source target
        = Prod.map (fun a => a) ofGraph (h.graph.afterwards (h.graph.removeEdges source target)) := by
  have hsound : h.storage.Sound := h.storage_eq ▸ sound_ofGraph h.graph
  refine ⟨h.storage_eq, hsound, written_insertNode h.storage, fun l => ?_, fun k => ?_, fun id => ?_,
    fun source target => ?_⟩
  · rw [storage, insertNodes_eq]
    exact h.storage.entries.keys_prefix_foldl_put (filed l)
  · rw [storage, entries_merge]
    exact h.storage.entries.keys_prefix_foldl_put k.storage.entries
  · exact ⟨nodeRemoved_removeNode hsound id, by rw [h.storage_eq]; exact removeNode_ofGraph h.graph id⟩
  · exact ⟨edgesRemoved_removeEdges h.storage source target,
      by rw [h.storage_eq]; exact removeEdges_ofGraph h.graph source target⟩

/-- Edges that are renamed onto each other become one, and one that comes to join a node to itself is left out. -/
example : (renameNodes (.ofParts [] [⟨"a", "c"⟩, ⟨"b", "c"⟩, ⟨"a", "b"⟩]) [("a", "b")]).storage.edges
    = [⟨"b", "c"⟩] := by decide +kernel

end History

end Groundwork
