import Groundwork.Proofs.Compile.Naming
import Groundwork.Proofs.Graph.Order

/-!
# Dependencies are references

The edges of a compiled graph are recorded in two places: while references to modules are resolved, and after the
inputs of hook nodes were linked.  In between inputs are rewritten, and a node can take the place of another one of
its id.  So an edge that was recorded need not belong to a token that is still there.

Main statement: every token of a compiled graph is an edge, no node refers to itself, and there are no cycles; and
if the ids of the modules are distinct, their inputs legible and the app nodes apart, the edges of a node are just
its references (`edges_iff_references`).
-/

namespace Groundwork.Compile

open Template

variable {s : Stages} {app : AppGraph} {g : Infrastructure}

/-! ### Edges of compiled graphs -/

theorem edge_of_reference (h : Closed g) {n : InfraNode} (hn : n ∈ g.nodes) {id : String}
    (hid : id ∈ n.referencedIds) : (⟨n.id, id⟩ : Edge) ∈ g.edges := by
  obtain ⟨e, he, r, hr, rfl⟩ := InfraNode.mem_referencedIds.1 hid
  obtain ⟨r', hr', -, hedge⟩ := h.tokens n hn e he
  rw [hr] at hr'
  cases hr'
  exact hedge

theorem not_mem_referencedIds_self (h : Closed g) {n : InfraNode} (hn : n ∈ g.nodes) : n.id ∉ n.referencedIds := by
  intro hid
  have hloop := g.edges_proper _ (edge_of_reference h hn hid)
  simp [Edge.isLoop] at hloop

/-- **An edge is a reference of its node, or was recorded for a module of the same id.** -/
theorem mem_edges_iff (h : Compiled s g) {n : InfraNode} (hn : n ∈ g.nodes) {id : String} :
    (⟨n.id, id⟩ : Edge) ∈ g.edges ↔
      id ∈ n.referencedIds ∨ (id ≠ n.id ∧ ∃ m ∈ s.members, (⟨n.id, id⟩ : Edge) ∈ m.edges) := by
  constructor
  · intro he
    obtain ⟨hmem, hloop⟩ := (h.assembled.edges _).1 he
    rcases List.mem_append.1 hmem with hmem | hmem
    · obtain ⟨m, hm, hedge⟩ := List.mem_flatMap.1 hmem
      refine Or.inr ⟨fun heq => ?_, m, hm, hedge⟩
      simp [Edge.isLoop, heq] at hloop
    · obtain ⟨n', hn', -, hsource, htarget, -⟩ := mem_linkEdges.1 hmem
      rw [Graph.eq_of_id_eq hn hn' hsource]
      exact Or.inl htarget
  · rintro (hid | ⟨hne, m, hm, hedge⟩)
    · exact edge_of_reference h.closed hn hid
    · refine (h.assembled.edges _).2 ⟨List.mem_append_left _ (List.mem_flatMap.2 ⟨m, hm, hedge⟩), ?_⟩
      simpa [Edge.isLoop] using hne.symm

/-- Under distinct ids each module has its node. -/
theorem linked_mem_nodes (h : Compiled s g) (hids : s.ids.Nodup) {m : Member} (hm : m ∈ s.members) :
    s.linked m ∈ g.nodes := by
  rw [h.assembled.nodes (by rw [s.idsOf_linked]; exact hids)]
  exact List.mem_map_of_mem hm

/-- **What a module names, its node refers to**, in legible stages apart from the app nodes. -/
theorem mem_referencedIds_linked (h : Compiled s g) (hnested : s.Nested app) (hids : s.ids.Nodup)
    (hlegible : s.Legible) (hapart : s.Apart) {m : Member} (hm : m ∈ s.members) {e : Edge} (he : e ∈ m.edges) :
    e.target ∈ (s.linked m).referencedIds := by
  obtain ⟨-, x, hx, name, key, hreference, hlookup⟩ := Member.mem_edges.1 he
  obtain ⟨m', hm', hid⟩ := hnested.exists_of_member_lookup hm hlookup
  -- the token becomes a reference to the node, which is never linked
  have hresolved : resolvedExpression m.lookup x = Reference.expression ⟨m'.id, key⟩ := by
    rw [resolvedExpression, hreference, hid]
    show (m.lookup name).elim _ _ = _
    rw [hlookup]
    rfl
  have htoken : Reference.expression ⟨m'.id, key⟩ ∈ visitExpressions m.inputs := by
    rw [hlegible.visitExpressions_inputs hnested hm, ← hresolved]
    exact List.mem_map_of_mem hx
  have hleft := hlegible.mem_visitExpressions_linked hapart hnested hm htoken fun r hr => by
    rw [m'.id_eq] at hr
    rw [eq_of_ofExpression?_expression hr]
    exact Stages.id_mem_ids hm'
  -- being left in a compiled graph, it has a key
  obtain ⟨r, hr, -, -⟩ := h.closed.tokens _ (linked_mem_nodes h hids hm) _ hleft
  have hnode : r.node = e.target := by
    rw [m'.id_eq] at hr
    rw [eq_of_ofExpression?_expression hr, ← hid]
    rfl
  exact InfraNode.mem_referencedIds.2 ⟨_, hleft, r, hr, hnode⟩

/-! ### Dependencies and references -/

/-- **Every token of a compiled graph is a dependency, no node refers to itself, and dependencies form no cycle.**  A
dependency that no token names was recorded for a module that gave the same id.  If the ids of all modules are
distinct, nothing but tokens holds dollar signs and nothing holds the end of a token, and no app node has the id of
a module, then the dependencies of a node are just the nodes that its tokens name. -/
theorem edges_iff_references {d : Definition} {options : CompileOptions}
    (h : d.compile app options = .ok g) :
    (∀ id, ¬ Relation.TransGen (fun a b => (⟨a, b⟩ : Edge) ∈ g.edges) id id) ∧
      (∀ e ∈ g.edges, e.source ∈ g.ids ∧ e.target ∈ g.ids) ∧
      (∀ n ∈ g.nodes, n.id ∉ n.referencedIds) ∧
      (∀ n ∈ g.nodes, ∀ id ∈ n.referencedIds, (⟨n.id, id⟩ : Edge) ∈ g.edges) ∧
      ∃ s, stages d app options = .ok s ∧
        (∀ n ∈ g.nodes, ∀ id, (⟨n.id, id⟩ : Edge) ∈ g.edges ↔
          id ∈ n.referencedIds ∨ (id ≠ n.id ∧ ∃ m ∈ s.members, (⟨n.id, id⟩ : Edge) ∈ m.edges)) ∧
        (s.ids.Nodup → s.Legible → s.Apart →
          ∀ n ∈ g.nodes, ∀ id, (⟨n.id, id⟩ : Edge) ∈ g.edges ↔ id ∈ n.referencedIds) := by
  obtain ⟨s, hstages, hcompiled⟩ := exists_stages h
  have hclosed := hcompiled.closed
  obtain ⟨hends, hacyclic⟩ := (Graph.validate_eq_ok_iff g).1 hclosed.valid
  refine ⟨fun id hcycle => hacyclic id ?_, hends, fun n hn => not_mem_referencedIds_self hclosed hn,
    fun n hn id hid => edge_of_reference hclosed hn hid, s, hstages, fun n hn id => mem_edges_iff hcompiled hn, ?_⟩
  · exact Relation.TransGen.mono (fun a b hab => (Graph.dependsOn_iff_of_validate hclosed.valid).2 hab) id id hcycle
  · intro hids hlegible hapart n hn id
    rw [mem_edges_iff hcompiled hn]
    refine or_iff_left_of_imp ?_
    rintro ⟨-, m, hm, hedge⟩
    have hreferenced :=
      mem_referencedIds_linked hcompiled (nested_of_stages hstages) hids hlegible hapart hm hedge
    -- the module that the edge was recorded for is the one of the node
    have hsource : n.id = m.id := (Member.mem_edges.1 hedge).1
    have hsame : n = s.linked m :=
      Graph.eq_of_id_eq hn (linked_mem_nodes hcompiled hids hm) (hsource.trans (s.id_linked m).symm)
    rw [hsame]
    exact hreferenced

/-- The small datacenter has distinct ids and legible inputs, and its app nodes are apart. -/
theorem edges_iff_references_market :
    market.compile marketApp marketOptions = .ok marketGraph ∧
      ∀ n ∈ marketGraph.nodes, ∀ id, (⟨n.id, id⟩ : Edge) ∈ marketGraph.edges ↔ id ∈ n.referencedIds := by
  obtain ⟨-, hids, hlegible, hapart⟩ := regular_market
  obtain ⟨-, -, -, -, s, hs, -, hiff⟩ := edges_iff_references compile_market
  rw [stages_market] at hs
  cases hs
  exact ⟨compile_market, hiff hids hlegible hapart⟩

/-- Two of these names make one id: a dot in a name becomes a dash.  The module of the one has an input that refers
to a third module, that of the other has none. -/
def dashedNames : Definition :=
  ⟨[], [("a-b", ⟨"img", .pulumi, .obj [("t", .str "$\x7b\x7b module.c.id \x7d\x7d")]⟩),
    ("a.b", ⟨"img", .pulumi, .obj []⟩), ("c", ⟨"img", .pulumi, .obj []⟩)], []⟩

/-- **A node can have a dependency that none of its tokens names.**  The node without inputs took the place of the
one that refers to the third module, and the dependency stayed. -/
theorem spurious_edge_dashedNames :
    ∃ g s, dashedNames.compile Graph.empty ⟨"dc", none, []⟩ = .ok g ∧
      stages dashedNames Graph.empty ⟨"dc", none, []⟩ = .ok s ∧ s.Legible ∧ s.Apart ∧
      (⟨"module/a-b@blue", "module/c@blue"⟩ : Edge) ∈ g.edges ∧
      ∃ n ∈ g.nodes, n.id = "module/a-b@blue" ∧ "module/c@blue" ∉ n.referencedIds :=
  exists_eq_ok_and Graph.empty Stages.empty (by decide +kernel)

end Groundwork.Compile
