import Groundwork.Infrastructure.Graph
import Groundwork.Proofs.Data.Table
import Groundwork.Proofs.Graph.Contents

/-!
# How infrastructure graphs change

`Infrastructure.renameNodes` gives the edges of a graph other ends and its references other nodes.  The nodes
keep their ids, so whether an edge then leads to a node depends on the names alone.

While a plan is carried out, nodes of its graph are replaced by later stages of themselves, one at a time:
what a node stands for stays, its inputs, status, outputs and state may change.  As long as only nodes that
are not complete are replaced, nothing that depends on complete nodes is ever taken back.

Main statements: the edges of a renamed graph are the images of its edges (`mem_edges_renameNodes`), and the
id of an incarnation tells the id of its key and its color (`idOf_eq_idOf_iff`); replacing an incomplete node
keeps complete nodes complete (`Replaces.isCompleteId_of`), nodes unblocked (`Replaces.isUnblocked_of`) and
outputs in place (`Replaces.outputs_within`).
-/

namespace Groundwork

/-! ### Ids of incarnations -/

/-- A text with a color at its end tells the color and what stands before it. -/
theorem Color.append_name_inj {k l : List Char} {c d : Color}
    (h : k ++ '@' :: c.name.toList = l ++ '@' :: d.name.toList) : k = l ∧ c = d := by
  -- the names of the two colors end in different letters
  have hcolor : c = d := by
    have hlast := congrArg List.getLast? h
    cases c <;> cases d <;> simp [Color.name] at hlast ⊢
  subst hcolor
  exact ⟨List.append_cancel_right h, rfl⟩

/-- **The id of an incarnation tells the id of its key and its color.** -/
theorem InfraNode.idOf_eq_idOf_iff {k l : Key} {c d : Color} :
    InfraNode.idOf k c = InfraNode.idOf l d ↔ k.id = l.id ∧ c = d := by
  constructor
  · intro h
    have hchars : k.id.toList ++ ('@' :: c.name.toList) = l.id.toList ++ ('@' :: d.name.toList) := by
      simpa [InfraNode.idOf, String.toList_append] using congrArg String.toList h
    obtain ⟨hkeys, hcolors⟩ := Color.append_name_inj hchars
    exact ⟨String.toList_inj.1 hkeys, hcolors⟩
  · rintro ⟨hk, rfl⟩
    rw [InfraNode.idOf, InfraNode.idOf, hk]

namespace Infrastructure

/-! ### Renamed graphs -/

/-- A node with its references renamed. -/
def renameInputs (names : Table String) (n : InfraNode) : InfraNode :=
  { n with inputs := Reference.rename names n.inputs }

theorem nodes_renameNodes {names : Table String} (h : names ≠ []) (g : Infrastructure) :
    (renameNodes names g).nodes = g.nodes.map (renameInputs names) := by
  have hempty : names.isEmpty = false := by simpa using h
  unfold renameNodes
  rw [hempty]
  exact Graph.nodes_setEdges _ _

theorem ids_renameNodes (names : Table String) (g : Infrastructure) :
    (renameNodes names g).ids = g.ids := by
  unfold renameNodes
  split
  · rfl
  · exact (Graph.ids_congr (Graph.nodes_setEdges _ _)).trans (Graph.ids_mapNodes g _ _)

/-- **The edges of a renamed graph are the images of its edges, without loops.** -/
theorem mem_edges_renameNodes {names : Table String} {g : Infrastructure} {e : Edge} :
    e ∈ (renameNodes names g).edges ↔
      e.isLoop = false ∧ ∃ x ∈ g.edges, e = ⟨newName names x.source, newName names x.target⟩ := by
  unfold renameNodes
  split
  · rename_i hempty
    have hnames : names = [] := List.isEmpty_iff.1 hempty
    subst hnames
    have hself : ∀ x : Edge, (⟨newName [] x.source, newName [] x.target⟩ : Edge) = x := fun x => rfl
    constructor
    · intro he
      exact ⟨g.edges_proper e he, e, he, (hself e).symm⟩
    · rintro ⟨-, x, hx, rfl⟩
      rw [hself]
      exact hx
  · rw [Graph.mem_edges_setEdges, List.mem_map, and_comm]
    refine and_congr_right fun _ => exists_congr fun x => and_congr_right fun _ => ?_
    exact eq_comm

/-! ### Outputs and completeness by id -/

/-- **The outputs so far are those of the complete nodes.** -/
theorem lookup_outputs {g : Infrastructure} {id : String} {v : Value} :
    (outputs g).lookup id = some v ↔
      ∃ n ∈ g.nodes, n.id = id ∧ n.isComplete = true ∧ n.outputs = some v :=
  Table.lookup_filterMap_eq_some_iff g.ids_nodup

theorem lookup_outputs_of_mem {g : Infrastructure} {n : InfraNode} (hn : n ∈ g.nodes)
    (hc : n.isComplete = true) : (outputs g).lookup n.id = n.outputs := by
  refine Option.ext fun v => ?_
  rw [lookup_outputs]
  constructor
  · rintro ⟨m, hm, hid, -, ho⟩
    rw [← Graph.eq_of_id_eq hm hn hid]
    exact ho
  · intro ho
    exact ⟨n, hn, rfl, hc, ho⟩

theorem isCompleteId_iff {g : Infrastructure} {id : String} :
    isCompleteId g id = true ↔ ∃ n ∈ g.nodes, n.id = id ∧ n.isComplete = true := by
  unfold isCompleteId
  constructor
  · intro h
    cases hn : g.node? id with
    | none =>
      rw [hn] at h
      cases h
    | some n =>
      rw [hn] at h
      obtain ⟨hmem, hid⟩ := Graph.node?_eq_some_iff.1 hn
      exact ⟨n, hmem, hid, h⟩
  · rintro ⟨n, hmem, hid, hc⟩
    rw [Graph.node?_eq_some_iff.2 ⟨hmem, hid⟩]
    exact hc

theorem isCompleteId_of_mem {g : Infrastructure} {n : InfraNode} (h : n ∈ g.nodes) :
    isCompleteId g n.id = n.isComplete := by
  rw [isCompleteId, show g.node? n.id = some n from Graph.node?_id h]
  rfl

theorem isUnblocked_iff {g : Infrastructure} {id : String} :
    isUnblocked g id = true ↔ ∀ e ∈ g.edges, e.source = id → isCompleteId g e.target = true := by
  rw [isUnblocked, List.all_eq_true]
  constructor
  · intro h e he hs
    exact h e (List.mem_filter.2 ⟨he, decide_eq_true hs⟩)
  · intro h e he
    obtain ⟨he, hs⟩ := List.mem_filter.1 he
    exact h e he (of_decide_eq_true hs)

/-! ### Later stages of nodes -/

/-- Two nodes that stand for the same change of the same incarnation. -/
structure SameChange (n m : InfraNode) : Prop where
  key : m.key = n.key
  color : m.color = n.color
  appNode : m.appNode = n.appNode
  image : m.image = n.image
  plugin : m.plugin = n.plugin
  action : m.action = n.action

theorem SameChange.refl (n : InfraNode) : SameChange n n := ⟨rfl, rfl, rfl, rfl, rfl, rfl⟩

theorem SameChange.trans {n m k : InfraNode} (h : SameChange n m) (h' : SameChange m k) : SameChange n k :=
  ⟨h'.key.trans h.key, h'.color.trans h.color, h'.appNode.trans h.appNode, h'.image.trans h.image,
    h'.plugin.trans h.plugin, h'.action.trans h.action⟩

theorem SameChange.id {n m : InfraNode} (h : SameChange n m) : m.id = n.id := by
  rw [InfraNode.id, InfraNode.id, h.key, h.color]

/-! ### Replacing a node -/

/-- Whether a graph is another one with a later stage in the place of a node. -/
structure Replaces (g h : Infrastructure) (n m : InfraNode) : Prop where
  mem : n ∈ g.nodes
  same : SameChange n m
  edges : h.edges = g.edges
  ids : h.ids = g.ids
  nodes : ∀ k, k ∈ h.nodes ↔ k = m ∨ (k ∈ g.nodes ∧ k.id ≠ n.id)

theorem replaces_insertNode {g : Infrastructure} {n m : InfraNode} (hn : n ∈ g.nodes) (hs : SameChange n m) :
    Replaces g (g.insertNode m) n m where
  mem := hn
  same := hs
  edges := rfl
  ids := Graph.ids_insertNode_of_mem (show m.id ∈ g.ids by rw [hs.id]; exact Graph.id_mem_ids hn)
  nodes := by
    intro k
    rw [Graph.mem_nodes_insertNode]
    show k = m ∨ (k ∈ g.nodes ∧ k.id ≠ m.id) ↔ _
    rw [hs.id]

theorem replaces_update {g : Infrastructure} {n : InfraNode} (hn : n ∈ g.nodes) {f : InfraNode → InfraNode}
    (h : ∀ k, (f k).id = k.id) (hs : SameChange n (f n)) : Replaces g (g.update n.id f h) n (f n) where
  mem := hn
  same := hs
  edges := rfl
  ids := Graph.ids_update g n.id f h
  nodes := by
    intro k
    rw [Graph.mem_nodes_update]
    refine or_congr_left ⟨?_, ?_⟩
    · rintro ⟨l, hl, hid, rfl⟩
      rw [Graph.eq_of_id_eq hl hn hid]
    · rintro rfl
      exact ⟨n, hn, rfl, rfl⟩

namespace Replaces

variable {g h : Infrastructure} {n m : InfraNode}

theorem new_mem (r : Replaces g h n m) : m ∈ h.nodes := (r.nodes m).2 (Or.inl rfl)

theorem mem_of_ne (r : Replaces g h n m) {k : InfraNode} (hk : k ∈ g.nodes) (hne : k.id ≠ n.id) :
    k ∈ h.nodes := (r.nodes k).2 (Or.inr ⟨hk, hne⟩)

/-- Every node of the graph has an earlier stage in the one before. -/
theorem exists_before (r : Replaces g h n m) {k : InfraNode} (hk : k ∈ h.nodes) :
    ∃ l ∈ g.nodes, SameChange l k := by
  rcases (r.nodes k).1 hk with rfl | ⟨hk, -⟩
  · exact ⟨n, r.mem, r.same⟩
  · exact ⟨k, hk, SameChange.refl k⟩

/-- What was complete beside the replaced node still is as it was. -/
theorem complete_mem (r : Replaces g h n m) (hn : n.isComplete = false) {k : InfraNode} (hk : k ∈ g.nodes)
    (hc : k.isComplete = true) : k ∈ h.nodes := by
  refine r.mem_of_ne hk fun hid => ?_
  rw [Graph.eq_of_id_eq hk r.mem hid, hn] at hc
  cases hc

theorem isCompleteId_of (r : Replaces g h n m) (hn : n.isComplete = false) {id : String}
    (hc : isCompleteId g id = true) : isCompleteId h id = true := by
  obtain ⟨k, hk, hid, hk'⟩ := isCompleteId_iff.1 hc
  exact isCompleteId_iff.2 ⟨k, r.complete_mem hn hk hk', hid, hk'⟩

theorem isUnblocked_of (r : Replaces g h n m) (hn : n.isComplete = false) {id : String}
    (hu : isUnblocked g id = true) : isUnblocked h id = true := by
  rw [isUnblocked_iff] at hu ⊢
  intro e he hs
  rw [r.edges] at he
  exact r.isCompleteId_of hn (hu e he hs)

theorem outputs_within (r : Replaces g h n m) (hn : n.isComplete = false) :
    (outputs g).Within (outputs h) := by
  intro id v hv
  obtain ⟨k, hk, hid, hc, ho⟩ := lookup_outputs.1 hv
  exact lookup_outputs.2 ⟨k, r.complete_mem hn hk hc, hid, hc, ho⟩

/-- What is seen of a complete node stays the same. -/
theorem lookup_outputs_of_isCompleteId (r : Replaces g h n m) (hn : n.isComplete = false) {id : String}
    (hc : isCompleteId g id = true) : (outputs h).lookup id = (outputs g).lookup id := by
  obtain ⟨k, hk, rfl, hkc⟩ := isCompleteId_iff.1 hc
  rw [lookup_outputs_of_mem hk hkc, lookup_outputs_of_mem (r.complete_mem hn hk hkc) hkc]

end Replaces

end Infrastructure

end Groundwork
