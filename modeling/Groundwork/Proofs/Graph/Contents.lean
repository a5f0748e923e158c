import Groundwork.Graph.Basic
import Mathlib.Data.List.Induction

/-!
# What a graph holds after it was written to

Each way of writing to a graph is described by what can be found in the graph afterwards: its nodes
through `∈` and `node?`, its ids, and its edges through `∈`.  Proofs about graphs use these statements and
do not look at the lists again.

A graph is put together by writing nodes and edges one after another and by merging graphs that were put together
in the same way.  What it holds in the end depends on the lists of all nodes and all edges that were written:
under each id there is the last node of that id.

Main statements: a written node is found under its id and all others stay (`node?_insertNode`), an update
changes one node (`node?_update`), and inserted edges are there unless they are loops
(`mem_edges_insertEdges`); a merged graph holds what was written to both (`Assembled.merge`), and under distinct
ids the nodes are those that were written, in order (`Assembled.nodes`).
-/

namespace Groundwork

/-! ### Lists -/

section Lists

variable {N : Type} [Identified N]

/-- In a list with distinct ids the nodes after a write are the written one and those of other ids. -/
theorem mem_upsert {l : List N} (h : (idsOf l).Nodup) {n m : N} :
    m ∈ upsert l n ↔ m = n ∨ (m ∈ l ∧ Identified.id m ≠ Identified.id n) := by
  induction l with
  | nil => simp [upsert]
  | cons a l ih =>
    simp only [idsOf, List.map_cons, List.nodup_cons] at h
    obtain ⟨ha, hl⟩ := h
    unfold upsert
    split
    · rename_i hid
      -- the head is replaced; no node of the tail has its id
      have htail : m ∈ l → Identified.id m ≠ Identified.id n := by
        intro hm e
        exact ha (List.mem_map.2 ⟨m, hm, e.trans hid.symm⟩)
      constructor
      · intro hm
        rcases List.mem_cons.1 hm with rfl | hm
        · exact Or.inl rfl
        · exact Or.inr ⟨List.mem_cons_of_mem a hm, htail hm⟩
      · rintro (rfl | ⟨hm, hne⟩)
        · exact List.mem_cons_self
        · rcases List.mem_cons.1 hm with rfl | hm
          · exact absurd hid hne
          · exact List.mem_cons_of_mem n hm
    · rename_i hid
      rw [List.mem_cons, ih hl, List.mem_cons]
      constructor
      · rintro (rfl | rfl | ⟨hm, hne⟩)
        · exact Or.inr ⟨Or.inl rfl, hid⟩
        · exact Or.inl rfl
        · exact Or.inr ⟨Or.inr hm, hne⟩
      · rintro (rfl | ⟨rfl | hm, hne⟩)
        · exact Or.inr (Or.inl rfl)
        · exact Or.inl rfl
        · exact Or.inr (Or.inr ⟨hm, hne⟩)

/-- A node of a new id goes to the end. -/
theorem upsert_of_not_mem {l : List N} {n : N} (h : Identified.id n ∉ idsOf l) :
    upsert l n = l ++ [n] := by
  induction l with
  | nil => rfl
  | cons a l ih =>
    simp only [idsOf, List.map_cons, List.mem_cons, not_or] at h
    rw [upsert, if_neg (fun e => h.1 e.symm), ih h.2]
    rfl

theorem mem_addEdge {l : List Edge} {e x : Edge} :
    x ∈ addEdge l e ↔ x ∈ l ∨ (x = e ∧ e.isLoop = false) := by
  unfold addEdge
  split
  · rename_i h
    simp only [Bool.or_eq_true, List.contains_eq_mem, decide_eq_true_eq] at h
    constructor
    · exact Or.inl
    · rintro (hx | ⟨rfl, hl⟩)
      · exact hx
      · rcases h with h | h
        · rw [hl] at h
          cases h
        · exact h
  · rename_i h
    simp only [Bool.or_eq_true, not_or, Bool.not_eq_true] at h
    rw [List.mem_append, List.mem_singleton]
    exact or_congr_right ⟨fun hx => ⟨hx, h.1⟩, fun hx => hx.1⟩

/-- The node that a search by id finds is the one of that id. -/
theorem find?_id_eq_some_iff {l : List N} (h : (idsOf l).Nodup) {id : String} {n : N} :
    l.find? (Identified.id · = id) = some n ↔ n ∈ l ∧ Identified.id n = id := by
  constructor
  · intro hf
    exact ⟨List.mem_of_find?_eq_some hf, by simpa using List.find?_some hf⟩
  · rintro ⟨hn, hid⟩
    induction l with
    | nil => cases hn
    | cons a l ih =>
      simp only [idsOf, List.map_cons, List.nodup_cons] at h
      rcases List.mem_cons.1 hn with rfl | hn
      · simp [hid]
      · have hne : Identified.id a ≠ id := by
          intro e
          exact h.1 (List.mem_map.2 ⟨n, hn, hid.trans e.symm⟩)
        rw [List.find?_cons_of_neg (by simpa using hne)]
        exact ih h.2 hn

end Lists

namespace Graph

variable {N : Type} [Identified N]

/-- Graphs are equal if their nodes and edges are. -/
theorem ext {g h : Graph N} (hnodes : g.nodes = h.nodes) (hedges : g.edges = h.edges) : g = h := by
  cases g
  cases h
  cases hnodes
  cases hedges
  rfl

/-! ### Looking up -/

theorem node?_eq_some_iff {g : Graph N} {id : String} {n : N} :
    g.node? id = some n ↔ n ∈ g.nodes ∧ Identified.id n = id :=
  find?_id_eq_some_iff g.ids_nodup

theorem node?_id {g : Graph N} {n : N} (h : n ∈ g.nodes) : g.node? (Identified.id n) = some n :=
  node?_eq_some_iff.2 ⟨h, rfl⟩

/-- Nodes of one id are one node. -/
theorem eq_of_id_eq {g : Graph N} {m n : N} (hm : m ∈ g.nodes) (hn : n ∈ g.nodes)
    (h : Identified.id m = Identified.id n) : m = n := by
  have e := node?_id hm
  rw [h, node?_id hn] at e
  exact (Option.some.inj e).symm

theorem mem_ids_iff {g : Graph N} {id : String} : id ∈ g.ids ↔ ∃ n ∈ g.nodes, Identified.id n = id :=
  List.mem_map

theorem id_mem_ids {g : Graph N} {n : N} (h : n ∈ g.nodes) : Identified.id n ∈ g.ids :=
  List.mem_map_of_mem h

/-! ### Writing nodes -/

@[simp] theorem edges_insertNode (g : Graph N) (n : N) : (g.insertNode n).edges = g.edges := rfl

theorem mem_nodes_insertNode {g : Graph N} {n m : N} :
    m ∈ (g.insertNode n).nodes ↔ m = n ∨ (m ∈ g.nodes ∧ Identified.id m ≠ Identified.id n) :=
  mem_upsert g.ids_nodup

theorem node?_insertNode (g : Graph N) (n : N) (id : String) :
    (g.insertNode n).node? id = if Identified.id n = id then some n else g.node? id := by
  split
  · rename_i h
    exact node?_eq_some_iff.2 ⟨mem_nodes_insertNode.2 (Or.inl rfl), h⟩
  · rename_i h
    refine Option.ext fun m => ?_
    rw [node?_eq_some_iff, node?_eq_some_iff, mem_nodes_insertNode]
    constructor
    · rintro ⟨rfl | ⟨hm, -⟩, hid⟩
      · exact absurd hid h
      · exact ⟨hm, hid⟩
    · rintro ⟨hm, hid⟩
      exact ⟨Or.inr ⟨hm, fun e => h (e ▸ hid)⟩, hid⟩

/-- Writing a node of a known id keeps all ids. -/
theorem ids_insertNode_of_mem {g : Graph N} {n : N} (h : Identified.id n ∈ g.ids) :
    (g.insertNode n).ids = g.ids := by
  show idsOf (upsert g.nodes n) = idsOf g.nodes
  rw [ids_upsert]
  exact if_pos h

theorem nodes_insertNode_of_not_mem {g : Graph N} {n : N} (h : Identified.id n ∉ g.ids) :
    (g.insertNode n).nodes = g.nodes ++ [n] :=
  upsert_of_not_mem h

theorem mem_ids_insertNode {g : Graph N} {n : N} {id : String} :
    id ∈ (g.insertNode n).ids ↔ id ∈ g.ids ∨ id = Identified.id n := by
  rw [ids, insertNode, ids_upsert]
  split
  · rename_i h
    constructor
    · exact Or.inl
    · rintro (hid | rfl)
      · exact hid
      · exact h
  · rw [List.mem_append, List.mem_singleton]
    rfl

@[simp] theorem edges_insertNodes (g : Graph N) (l : List N) : (g.insertNodes l).edges = g.edges := by
  induction l generalizing g with
  | nil => rfl
  | cons n l ih => exact ih (g.insertNode n)

theorem mem_ids_insertNodes {l : List N} {g : Graph N} {id : String} :
    id ∈ (g.insertNodes l).ids ↔ id ∈ g.ids ∨ id ∈ idsOf l := by
  induction l generalizing g with
  | nil => simp [insertNodes, idsOf]
  | cons n l ih =>
    show id ∈ ((g.insertNode n).insertNodes l).ids ↔ _
    rw [ih, mem_ids_insertNode, or_assoc, show idsOf (n :: l) = Identified.id n :: idsOf l from rfl,
      List.mem_cons]

/-- Only nodes that were there or were written can be found. -/
theorem mem_nodes_of_mem_insertNodes {l : List N} {g : Graph N} {m : N} (h : m ∈ (g.insertNodes l).nodes) :
    m ∈ g.nodes ∨ m ∈ l := by
  induction l generalizing g with
  | nil => exact Or.inl h
  | cons n l ih =>
    rcases ih (g := g.insertNode n) h with h | h
    · rcases mem_nodes_insertNode.1 h with rfl | ⟨h, -⟩
      · exact Or.inr List.mem_cons_self
      · exact Or.inl h
    · exact Or.inr (List.mem_cons_of_mem n h)

/-- What is in a graph after nodes are written, if none of them is written over another one. -/
theorem mem_nodes_insertNodes {g : Graph N} {l : List N}
    (hl : ∀ m ∈ l, ∀ n ∈ l, Identified.id m = Identified.id n → m = n) {n : N} :
    n ∈ (g.insertNodes l).nodes ↔ n ∈ l ∨ (n ∈ g.nodes ∧ Identified.id n ∉ idsOf l) := by
  induction l generalizing g with
  | nil => simp [insertNodes, idsOf]
  | cons m l ih =>
    show n ∈ ((g.insertNode m).insertNodes l).nodes ↔ _
    rw [ih fun a ha b hb => hl a (List.mem_cons_of_mem m ha) b (List.mem_cons_of_mem m hb), mem_nodes_insertNode]
    have hids : Identified.id n ∉ idsOf (m :: l) ↔ Identified.id n ≠ Identified.id m ∧ Identified.id n ∉ idsOf l := by
      rw [idsOf, List.map_cons, List.mem_cons, not_or]
      rfl
    rw [List.mem_cons, hids]
    constructor
    · rintro (h | ⟨rfl | ⟨hn, hne⟩, hnot⟩)
      · exact Or.inl (Or.inr h)
      · exact Or.inl (Or.inl rfl)
      · exact Or.inr ⟨hn, hne, hnot⟩
    · rintro ((rfl | h) | ⟨hn, hne, hnot⟩)
      · by_cases hmem : Identified.id n ∈ idsOf l
        · obtain ⟨a, ha, heq⟩ := List.mem_map.1 hmem
          exact Or.inl (hl a (List.mem_cons_of_mem n ha) n List.mem_cons_self heq ▸ ha)
        · exact Or.inr ⟨Or.inl rfl, hmem⟩
      · exact Or.inl h
      · exact Or.inr ⟨Or.inr ⟨hn, hne⟩, hnot⟩

/-- Nodes with distinct new ids are appended. -/
theorem nodes_insertNodes {l : List N} {g : Graph N} (hl : (idsOf l).Nodup)
    (hg : ∀ n ∈ l, Identified.id n ∉ g.ids) : (g.insertNodes l).nodes = g.nodes ++ l := by
  induction l generalizing g with
  | nil => exact (List.append_nil _).symm
  | cons n l ih =>
    simp only [idsOf, List.map_cons, List.nodup_cons] at hl
    have hn : (g.insertNode n).nodes = g.nodes ++ [n] :=
      nodes_insertNode_of_not_mem (hg n List.mem_cons_self)
    show ((g.insertNode n).insertNodes l).nodes = _
    rw [ih hl.2, hn, List.append_assoc]
    · rfl
    · intro m hm hid
      rcases mem_ids_insertNode.1 hid with hid | hid
      · exact hg m (List.mem_cons_of_mem n hm) hid
      · exact hl.1 (List.mem_map.2 ⟨m, hm, hid⟩)

/-! ### Changing nodes in place -/

@[simp] theorem edges_update (g : Graph N) (id : String) (f : N → N)
    (h : ∀ n, Identified.id (f n) = Identified.id n) : (g.update id f h).edges = g.edges := rfl

theorem ids_mapNodes (g : Graph N) (f : N → N) (h : ∀ n, Identified.id (f n) = Identified.id n) :
    (g.mapNodes f h).ids = g.ids := by
  simp [ids, idsOf, mapNodes, Function.comp_def, h]

theorem ids_update (g : Graph N) (id : String) (f : N → N)
    (h : ∀ n, Identified.id (f n) = Identified.id n) : (g.update id f h).ids = g.ids :=
  ids_mapNodes g _ _

theorem mem_nodes_update {g : Graph N} {id : String} {f : N → N}
    {h : ∀ n, Identified.id (f n) = Identified.id n} {m : N} :
    m ∈ (g.update id f h).nodes ↔
      (∃ n ∈ g.nodes, Identified.id n = id ∧ m = f n) ∨ (m ∈ g.nodes ∧ Identified.id m ≠ id) := by
  show m ∈ g.nodes.map (fun n => if Identified.id n = id then f n else n) ↔ _
  rw [List.mem_map]
  constructor
  · rintro ⟨n, hn, rfl⟩
    by_cases hid : Identified.id n = id
    · exact Or.inl ⟨n, hn, hid, if_pos hid⟩
    · rw [if_neg hid]
      exact Or.inr ⟨hn, hid⟩
  · rintro (⟨n, hn, hid, rfl⟩ | ⟨hm, hid⟩)
    · exact ⟨n, hn, if_pos hid⟩
    · exact ⟨m, hm, if_neg hid⟩

theorem node?_update (g : Graph N) (id : String) (f : N → N)
    (h : ∀ n, Identified.id (f n) = Identified.id n) (x : String) :
    (g.update id f h).node? x = if x = id then (g.node? x).map f else g.node? x := by
  refine Option.ext fun m => ?_
  rw [node?_eq_some_iff, mem_nodes_update]
  split
  · rename_i hx
    subst hx
    simp only [Option.map_eq_some_iff, node?_eq_some_iff]
    constructor
    · rintro ⟨⟨n, hn, hid, rfl⟩ | ⟨-, hne⟩, hm⟩
      · exact ⟨n, ⟨hn, hid⟩, rfl⟩
      · exact absurd hm hne
    · rintro ⟨n, ⟨hn, hid⟩, rfl⟩
      exact ⟨Or.inl ⟨n, hn, hid, rfl⟩, (h n).trans hid⟩
  · rename_i hx
    rw [node?_eq_some_iff]
    constructor
    · rintro ⟨⟨n, hn, hid, rfl⟩ | ⟨hm, -⟩, he⟩
      · exact absurd (he.symm.trans ((h n).trans hid)) hx
      · exact ⟨hm, he⟩
    · rintro ⟨hm, he⟩
      exact ⟨Or.inr ⟨hm, fun e => hx (he.symm.trans e)⟩, he⟩

/-! ### Writing edges -/

@[simp] theorem nodes_insertEdges (g : Graph N) (l : List Edge) : (g.insertEdges l).nodes = g.nodes := by
  induction l generalizing g with
  | nil => rfl
  | cons e l ih => exact ih (g.insertEdge e)

theorem mem_edges_insertEdges {l : List Edge} {g : Graph N} {x : Edge} :
    x ∈ (g.insertEdges l).edges ↔ x ∈ g.edges ∨ (x ∈ l ∧ x.isLoop = false) := by
  induction l generalizing g with
  | nil => simp [insertEdges]
  | cons e l ih =>
    show x ∈ ((g.insertEdge e).insertEdges l).edges ↔ _
    rw [ih, insertEdge, mem_addEdge, List.mem_cons, or_assoc]
    refine or_congr_right ⟨?_, ?_⟩
    · rintro (⟨rfl, hl⟩ | ⟨hx, hl⟩)
      · exact ⟨Or.inl rfl, hl⟩
      · exact ⟨Or.inr hx, hl⟩
    · rintro ⟨rfl | hx, hl⟩
      · exact Or.inl ⟨rfl, hl⟩
      · exact Or.inr ⟨hx, hl⟩

theorem edges_insertEdges_eq_foldl (g : Graph N) (l : List Edge) :
    (g.insertEdges l).edges = l.foldl addEdge g.edges := by
  induction l generalizing g with
  | nil => rfl
  | cons e l ih => exact ih (g.insertEdge e)

/-- **Edges that are written are those of a list, at their first places, without loops.** -/
theorem edges_setEdges (g : Graph N) (l : List Edge) :
    (g.setEdges l).edges = (l.filter fun e => !e.isLoop).eraseDups := by
  rw [setEdges, edges_insertEdges_eq_foldl]
  induction l using List.reverseRecOn with
  | nil => rfl
  | append_singleton l e ih =>
    rw [List.foldl_append, ih, List.filter_append, List.eraseDups_append]
    show addEdge _ e = _
    unfold addEdge
    cases hloop : e.isLoop with
    | true => simp [hloop]
    | false =>
      by_cases hmem : e ∈ l
      · simp [hloop, hmem, List.removeAll]
      · simp [hloop, hmem, List.removeAll, List.eraseDups_cons]

@[simp] theorem nodes_setEdges (g : Graph N) (l : List Edge) : (g.setEdges l).nodes = g.nodes :=
  nodes_insertEdges _ l

theorem mem_edges_setEdges {l : List Edge} {g : Graph N} {x : Edge} :
    x ∈ (g.setEdges l).edges ↔ x ∈ l ∧ x.isLoop = false := by
  rw [setEdges, mem_edges_insertEdges]
  simp

/-- Adding an edge twice is adding it once. -/
theorem insertEdge_insertEdge_self (g : Graph N) (e : Edge) : (g.insertEdge e).insertEdge e = g.insertEdge e := by
  refine Graph.ext rfl ?_
  show addEdge (addEdge g.edges e) e = addEdge g.edges e
  by_cases h : e.isLoop || g.edges.contains e
  · rw [addEdge, addEdge, if_pos h, if_pos h]
  · have hadded : addEdge g.edges e = g.edges ++ [e] := if_neg h
    rw [hadded, addEdge, if_pos (by simp)]

theorem insertNode_insertEdges (g : Graph N) (es : List Edge) (n : N) :
    (g.insertEdges es).insertNode n = (g.insertNode n).insertEdges es := by
  induction es generalizing g with
  | nil => rfl
  | cons e es ih => exact ih (g.insertEdge e)

/-- Nodes and edges can be added in any order. -/
theorem insertNodes_insertEdges (g : Graph N) (es : List Edge) (ns : List N) :
    (g.insertEdges es).insertNodes ns = (g.insertNodes ns).insertEdges es := by
  induction ns generalizing g with
  | nil => rfl
  | cons n ns ih =>
    show ((g.insertEdges es).insertNode n).insertNodes ns = _
    rw [insertNode_insertEdges, ih]
    rfl

/-- The ids of a graph are those of its nodes. -/
theorem ids_congr {g h : Graph N} (e : g.nodes = h.nodes) : g.ids = h.ids := congrArg idsOf e

end Graph

/-! ### Graphs put together -/

/-- Searching a list with distinct ids from its end finds the same node. -/
theorem find?_id_reverse {N : Type} [Identified N] {l : List N} (h : (idsOf l).Nodup) (id : String) :
    l.reverse.find? (Identified.id · = id) = l.find? (Identified.id · = id) := by
  have hreverse : (idsOf l.reverse).Nodup := by
    rw [idsOf, List.map_reverse]
    exact (List.reverse_perm (l.map Identified.id)).nodup_iff.2 h
  refine Option.ext fun n => ?_
  rw [find?_id_eq_some_iff hreverse, find?_id_eq_some_iff h, List.mem_reverse]

namespace Graph

variable {N : Type} [Identified N] {g k : Graph N} {ns ms : List N} {es fs : List Edge}

theorem node?_insertNodes (l : List N) (g : Graph N) (id : String) :
    (g.insertNodes l).node? id = (l.reverse.find? (Identified.id · = id)).or (g.node? id) := by
  induction l generalizing g with
  | nil => rfl
  | cons n l ih =>
    show ((g.insertNode n).insertNodes l).node? id = _
    rw [ih, node?_insertNode, List.reverse_cons, List.find?_append, Option.or_assoc]
    congr 1
    by_cases h : Identified.id n = id
    · rw [if_pos h, List.find?_singleton, if_pos (decide_eq_true h)]
      rfl
    · rw [if_neg h, List.find?_singleton, decide_eq_false h]
      rfl

theorem node?_insertEdges (g : Graph N) (l : List Edge) (id : String) :
    (g.insertEdges l).node? id = g.node? id := by
  rw [node?, nodes_insertEdges]
  rfl

theorem node?_mapNodes (g : Graph N) (f : N → N) (h : ∀ n, Identified.id (f n) = Identified.id n)
    (id : String) : (g.mapNodes f h).node? id = (g.node? id).map f := by
  show (g.nodes.map f).find? _ = _
  rw [List.find?_map]
  congr 2
  funext n
  simp [h]

/-- What a graph holds to which these nodes and these edges were written: of the nodes of one id the last, and the
edges that are no loops. -/
structure Assembled (g : Graph N) (ns : List N) (es : List Edge) : Prop where
  node? : ∀ id, g.node? id = ns.reverse.find? (Identified.id · = id)
  nodes : (idsOf ns).Nodup → g.nodes = ns
  edges : ∀ e, e ∈ g.edges ↔ e ∈ es ∧ e.isLoop = false

theorem assembled_empty : (empty : Graph N).Assembled [] [] where
  node? _ := rfl
  nodes _ := rfl
  edges e := by simp [empty]

theorem Assembled.insertNode (h : g.Assembled ns es) (n : N) : (g.insertNode n).Assembled (ns ++ [n]) es where
  node? id := by
    rw [node?_insertNode, h.node?, List.reverse_append, List.reverse_singleton, List.singleton_append,
      List.find?_cons]
    by_cases hid : Identified.id n = id
    · simp [hid]
    · simp [hid]
  nodes hids := by
    rw [idsOf, List.map_append, List.nodup_append] at hids
    obtain ⟨hns, -, hapart⟩ := hids
    have hnodes := h.nodes hns
    have hnew : Identified.id n ∉ g.ids := by
      intro hmem
      rw [ids, hnodes] at hmem
      exact hapart _ hmem _ (List.mem_singleton.2 rfl) rfl
    rw [nodes_insertNode_of_not_mem hnew, hnodes]
  edges := h.edges

theorem Assembled.insertEdges (h : g.Assembled ns es) (l : List Edge) :
    (g.insertEdges l).Assembled ns (es ++ l) where
  node? id := by rw [node?_insertEdges, h.node?]
  nodes hids := by rw [nodes_insertEdges, h.nodes hids]
  edges e := by
    rw [mem_edges_insertEdges, h.edges, List.mem_append, or_and_right]

/-- **A merged graph holds what was written to both.** -/
theorem Assembled.merge (h : g.Assembled ns es) (hk : k.Assembled ms fs) :
    (g.merge k).Assembled (ns ++ ms) (es ++ fs) where
  node? id := by
    have hfound : k.nodes.reverse.find? (Identified.id · = id) = ms.reverse.find? (Identified.id · = id) :=
      (find?_id_reverse k.ids_nodup id).trans (hk.node? id)
    rw [Graph.merge, node?_insertEdges, node?_insertNodes, hfound, h.node?, List.reverse_append,
      List.find?_append]
  nodes hids := by
    rw [idsOf, List.map_append, List.nodup_append] at hids
    obtain ⟨hns, hms, hapart⟩ := hids
    have hgNodes := h.nodes hns
    have hkNodes := hk.nodes hms
    rw [Graph.merge, nodes_insertEdges, hkNodes, nodes_insertNodes hms, hgNodes]
    intro n hn hmem
    rw [ids, hgNodes] at hmem
    exact hapart _ hmem _ (List.mem_map_of_mem hn) rfl
  edges e := by
    rw [Graph.merge, mem_edges_insertEdges, edges_insertNodes, h.edges, List.mem_append, hk.edges, or_and_right]
    refine or_congr_right ⟨fun he => he.1, fun he => ⟨he, he.2⟩⟩

theorem Assembled.mapNodes (h : g.Assembled ns es) (f : N → N) (hf : ∀ n, Identified.id (f n) = Identified.id n) :
    (g.mapNodes f hf).Assembled (ns.map f) es where
  node? id := by
    rw [node?_mapNodes, h.node?, ← List.map_reverse, List.find?_map]
    congr 2
    funext n
    simp [hf]
  nodes hids := by
    have hsame : idsOf (ns.map f) = idsOf ns := by simp [idsOf, Function.comp_def, hf]
    rw [hsame] at hids
    show g.nodes.map f = _
    rw [h.nodes hids]
  edges := h.edges

theorem Assembled.mem_ids (h : g.Assembled ns es) {id : String} : id ∈ g.ids ↔ id ∈ idsOf ns := by
  rw [← contains_iff, contains, h.node?, List.find?_isSome]
  simp [idsOf]

/-- A node that was written is there, or one that was written later under its id. -/
theorem Assembled.mem_of_mem_nodes (h : g.Assembled ns es) {n : N} (hn : n ∈ g.nodes) : n ∈ ns := by
  have hfound := node?_id hn
  rw [h.node?] at hfound
  exact List.mem_reverse.1 (List.mem_of_find?_eq_some hfound)

end Graph

end Groundwork
