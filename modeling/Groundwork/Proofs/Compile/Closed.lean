import Groundwork.Compile
import Groundwork.Proofs.Graph.Contents
import Groundwork.Proofs.Template.Substitution

/-!
# What a compiled graph is like

Main statement: all nodes of a compiled graph are blue, every token in it refers to a node that its owner
depends on, and the graph is valid (`closed_of_compile`).
-/

namespace Groundwork

namespace Compile

/-! ### Colors -/

/-- Whether all nodes of a graph are blue. -/
def AllBlue (g : Infrastructure) : Prop := ∀ n ∈ g.nodes, n.color = .blue

theorem allBlue_empty : AllBlue Graph.empty := fun _ h => by cases h

theorem AllBlue.insertEdges {g : Infrastructure} (h : AllBlue g) (l : List Edge) :
    AllBlue (g.insertEdges l) := by
  unfold AllBlue
  rw [Graph.nodes_insertEdges]
  exact h

theorem AllBlue.insertNode {g : Infrastructure} (h : AllBlue g) {n : InfraNode} (hn : n.color = .blue) :
    AllBlue (g.insertNode n) := by
  intro m hm
  rcases Graph.mem_nodes_insertNode.1 hm with rfl | ⟨hm, -⟩
  · exact hn
  · exact h m hm

theorem AllBlue.merge {g k : Infrastructure} (h : AllBlue g) (hk : AllBlue k) : AllBlue (g.merge k) := by
  refine AllBlue.insertEdges (fun n hn => ?_) k.edges
  rcases Graph.mem_nodes_of_mem_insertNodes hn with hn | hn
  · exact h n hn
  · exact hk n hn

theorem allBlue_build {s : Scope} {modules : Table ModuleDef} {around : Table String} {built : ScopedGraph}
    (h : s.build modules around = .ok built) : AllBlue built.graph := by
  obtain ⟨g, hg, h⟩ := bind_eq_ok h
  cases h
  refine of_foldlM_eq_ok (P := AllBlue) ?_ allBlue_empty hg
  rintro ⟨name, d⟩ - x y hx hy
  unfold Scope.addModule at hy
  dsimp only at hy
  split at hy
  · cases hy
  · cases hy
    exact (hx.insertNode rfl).insertEdges _

theorem color_linkNode (outputs : Table Value) (n : InfraNode) : (linkNode outputs n).color = n.color := by
  unfold linkNode
  split <;> rfl

theorem AllBlue.link {g : Infrastructure} (h : AllBlue g) (outputs : Table Value) :
    AllBlue (link outputs g) := by
  unfold Compile.link
  split
  · exact h
  · refine AllBlue.insertEdges (fun n hn => ?_) _
    obtain ⟨m, hm, rfl⟩ := List.mem_map.1 hn
    rw [color_linkNode]
    exact h m hm

theorem allBlue_instantiate {c : HookContext} {n : AppNode} {i : Instance}
    (h : instantiate c n = .ok (some i)) : AllBlue i.graph := by
  obtain ⟨hook, -, h⟩ := bind_eq_ok h
  cases hook with
  | none => cases h
  | some hook =>
    obtain ⟨built, hbuilt, h⟩ := bind_eq_ok h
    obtain ⟨outputs, -, h⟩ := bind_eq_ok h
    cases h
    obtain ⟨modules, -, hbuilt⟩ := bind_eq_ok hbuilt
    exact allBlue_build hbuilt

theorem AllBlue.mergeAll {l : List Instance} (hl : ∀ i ∈ l, AllBlue i.graph) {g : Infrastructure}
    (h : AllBlue g) : AllBlue (l.foldl (fun g i => g.merge i.graph) g) := by
  induction l generalizing g with
  | nil => exact h
  | cons i l ih =>
    exact ih (fun j hj => hl j (List.mem_cons_of_mem i hj)) (h.merge (hl i List.mem_cons_self))

theorem allBlue_addHooks {c : HookContext} {app : AppGraph} {g k : Infrastructure} (hg : AllBlue g)
    (h : addHooks c app g = .ok k) : AllBlue k := by
  obtain ⟨-, -, h⟩ := bind_eq_ok h
  obtain ⟨instances, hinstances, h⟩ := bind_eq_ok h
  dsimp only at h
  split at h
  · cases h
  · cases h
    refine AllBlue.link (AllBlue.mergeAll ?_ hg) _
    intro i hi
    obtain ⟨x, hx, rfl⟩ := List.mem_filterMap.1 hi
    obtain ⟨n, -, hn⟩ := exists_of_mem_mapM hinstances hx
    exact allBlue_instantiate hn

/-! ### Tokens -/

/-- What the check of tokens finds out. -/
theorem exists_of_checkTokens {g : Infrastructure} (h : checkTokens g = .ok ()) {n : InfraNode}
    (hn : n ∈ g.nodes) {e : String} (he : e ∈ Template.visitExpressions n.inputs) :
    ∃ r, Reference.ofExpression? e = some r ∧ r.node ∈ g.ids ∧ (⟨n.id, r.node⟩ : Edge) ∈ g.edges := by
  unfold checkTokens at h
  split at h
  · cases h
  · rename_i hnone
    have hnode := List.findSome?_eq_none_iff.1 hnone n hn
    have hfind := List.find?_eq_none.1 (Option.map_eq_none_iff.1 hnode) e he
    cases hr : Reference.ofExpression? e with
    | none =>
      rw [hr] at hfind
      exact absurd rfl hfind
    | some r =>
      rw [hr] at hfind
      simp only [Option.any_some, Bool.not_eq_true', Bool.not_eq_false, Bool.and_eq_true] at hfind
      obtain ⟨hnode, hedge⟩ := hfind
      exact ⟨r, rfl, Graph.contains_iff.1 hnode, List.contains_iff_mem.1 hedge⟩

theorem validate_of_checkGraph {g : Infrastructure} (h : checkGraph g = .ok ()) : g.validate = .ok () := by
  unfold checkGraph at h
  split at h
  · rename_i hvalid
    exact hvalid
  · cases h

/-! ### Compiled graphs -/

/-- What is checked of a graph before it is given out, and the color that its nodes have. -/
structure Closed (g : Infrastructure) : Prop where
  blue : ∀ n ∈ g.nodes, n.color = .blue
  tokens : ∀ n ∈ g.nodes, ∀ e ∈ Template.visitExpressions n.inputs,
    ∃ r, Reference.ofExpression? e = some r ∧ r.node ∈ g.ids ∧ (⟨n.id, r.node⟩ : Edge) ∈ g.edges
  valid : g.validate = .ok ()

/-- **Compiled graphs are closed**: their nodes are blue, their tokens refer to dependencies, and they are
valid. -/
theorem closed_of_compile {d : Definition} {app : AppGraph} {options : CompileOptions} {g : Infrastructure}
    (h : d.compile app options = .ok g) : Closed g := by
  obtain ⟨⟨modules, blocks⟩, -, h⟩ := bind_eq_ok h
  obtain ⟨root, hroot, h⟩ := bind_eq_ok h
  have hrootBlue := allBlue_build hroot
  have hchecked : ∀ {k : Infrastructure}, AllBlue k →
      (do
        checkTokens k
        checkGraph k
        .ok k) = Except.ok g → Closed g := by
    intro k hk h
    obtain ⟨⟨⟩, htokens, h⟩ := bind_eq_ok h
    obtain ⟨⟨⟩, hvalid, h⟩ := bind_eq_ok h
    cases h
    exact ⟨hk, fun n hn e he => exists_of_checkTokens htokens hn he, validate_of_checkGraph hvalid⟩
  dsimp only at h
  split at h
  · exact hchecked hrootBlue h
  · obtain ⟨graph, hgraph, h⟩ := bind_eq_ok h
    obtain ⟨block, -, hgraph⟩ := bind_eq_ok hgraph
    obtain ⟨environment, henvironment, hgraph⟩ := bind_eq_ok hgraph
    exact hchecked (allBlue_addHooks (hrootBlue.merge (allBlue_build henvironment)) hgraph) h

end Compile

end Groundwork
