import Groundwork.Proofs.Reference.Renaming
import Groundwork.Proofs.Template.Replacing

/-!
# Graphs under new names

Renaming gives the nodes that references and edges name other ids, all at once.  References are renamed within the
texts that hold them: these are taken apart, and written anew with other expressions.  In texts that are canonical,
so that writing them anew changes nothing, all but the ids stays as it is.  Edges are renamed end by end, and set
anew one after the other.

Main statements: renaming substitutes ids for ids in references and edges, and nothing else; and if the new names are
the old ones in another order, renaming in the other direction takes it back (`renameNodes_substitutes`).
-/

namespace Groundwork

/-! ### New names -/

namespace Reference

open Template

variable {names : Table String}

/-- A reference is plain if one with the same key is. -/
theorem plain_expression_of_nameable {id id' key : String} (hid : Nameable id) (hkey : key ≠ "")
    (h : Plain (expression ⟨id', key⟩)) : Plain (expression ⟨id, key⟩) := by
  refine ⟨trim_expression_of_forall (fun c hc => (hid c hc).2.1) fun c hc => ?_, ?_⟩
  · rw [← getLast?_expression id' hkey, ← h.1] at hc
    exact Text.getLast_trim hc
  · have hwhole := h.2
    rw [toList_expression] at hwhole ⊢
    have hnone : Text.contains ['\x7d', '\x7d'] id.toList = false :=
      Text.contains_of_not_mem fun hbrace => (hid _ hbrace).2.2 rfl
    exact Text.contains_join (by decide) (by decide) hnone
      (Text.contains_append_right (s := ['.']) (Text.contains_append_right hwhole))

/-- **Renamed expressions are plain** if the new names can stand in references. -/
theorem plain_renameExpression (hnames : ∀ t ∈ names.values, Nameable t) {e : String} (h : Plain e) :
    Plain (renameExpression names e) := by
  unfold renameExpression
  split
  · exact h
  · rename_i r hr
    obtain ⟨rfl, hkey⟩ := eq_expression_of_ofExpression? hr
    cases hnode : names.lookup r.node with
    | none => exact h
    | some node =>
      exact plain_expression_of_nameable (hnames node (List.mem_map_of_mem (Table.mem_of_lookup hnode))) hkey h

theorem renameExpression_nil : renameExpression [] = id := by
  funext e
  unfold renameExpression
  split <;> rfl

theorem rename_eq_mapTexts (names : Table String) (v : Value) :
    rename names v = v.mapTexts (rewriteText (renameExpression names)) :=
  mapExpressions_of_rewrites (rewrites_renamedToken names) v

end Reference

namespace Infrastructure

variable {names : Table String} {g : Infrastructure}

/-- An edge with its ends renamed. -/
def renameEdge (names : Table String) (e : Edge) : Edge := ⟨newName names e.source, newName names e.target⟩

/-- Whether the tokens in the inputs of all nodes are in canonical form. -/
def CanonicalInputs (g : Infrastructure) : Prop := ∀ n ∈ g.nodes, ∀ s ∈ n.inputs.texts, Template.Canonical s

instance (g : Infrastructure) : Decidable g.CanonicalInputs :=
  inferInstanceAs (Decidable (∀ n ∈ g.nodes, ∀ s ∈ n.inputs.texts, Template.Canonical s))

theorem nodes_renameNodes_of_canonical (names : Table String) (hg : g.CanonicalInputs) :
    (renameNodes names g).nodes = g.nodes.map fun n =>
      { n with inputs := n.inputs.mapTexts (Template.rewriteText (Reference.renameExpression names)) } := by
  by_cases hempty : names = []
  · subst hempty
    refine (map_eq_self_iff.2 fun n hn => ?_).symm
    have hinputs : n.inputs.mapTexts (Template.rewriteText (Reference.renameExpression [])) = n.inputs := by
      rw [Reference.renameExpression_nil, Value.mapTexts_congr (g := id) (hg n hn), Value.mapTexts_id]
    rw [hinputs]
  · rw [nodes_renameNodes hempty]
    refine List.map_congr_left fun n hn => ?_
    rw [renameInputs, Reference.rename_eq_mapTexts]

theorem eraseDups_filter_edges (g : Infrastructure) : (g.edges.filter fun e => !e.isLoop).eraseDups = g.edges := by
  have hproper : (g.edges.filter fun e => !e.isLoop) = g.edges :=
    List.filter_eq_self.2 fun e he => by rw [g.edges_proper e he]; rfl
  rw [hproper, eraseDups_of_nodup g.edges_nodup]

/-- **The edges of a renamed graph are the images of its edges**, at their first places, without loops. -/
theorem edges_renameNodes (names : Table String) (g : Infrastructure) :
    (renameNodes names g).edges = ((g.edges.map (renameEdge names)).filter fun e => !e.isLoop).eraseDups := by
  by_cases hempty : names = []
  · subst hempty
    have hsame : g.edges.map (renameEdge []) = g.edges := List.map_id' g.edges
    rw [hsame, eraseDups_filter_edges]
    rfl
  · have hnames : names.isEmpty = false := by simpa using hempty
    rw [renameNodes, hnames]
    exact Graph.edges_setEdges _ _

/-- Different edges stay different if different ids do. -/
theorem edges_renameNodes_of_injective (h : Function.Injective (newName names)) :
    (renameNodes names g).edges = g.edges.map (renameEdge names) := by
  have hinjective : Function.Injective (renameEdge names) := by
    intro a b hab
    obtain ⟨hsource, htarget⟩ := Edge.mk.inj hab
    cases a
    cases b
    rw [Edge.mk.injEq]
    exact ⟨h hsource, h htarget⟩
  have hproper : ((g.edges.map (renameEdge names)).filter fun e => !e.isLoop) = g.edges.map (renameEdge names) := by
    refine List.filter_eq_self.2 fun e he => ?_
    obtain ⟨x, hx, rfl⟩ := List.mem_map.1 he
    have hends : x.source ≠ x.target := of_decide_eq_false (g.edges_proper x hx)
    have hloop : (renameEdge names x).isLoop = false := decide_eq_false fun heq => hends (h heq)
    rw [hloop]
    rfl
  rw [edges_renameNodes, hproper, eraseDups_of_nodup (g.edges_nodup.map hinjective)]

/-! ### Names in another order -/

section Turned

variable (hkeys : names.keys.Nodup) (hvalues : names.values.Perm names.keys)

include hvalues

theorem lookup_swap_eq_none {a : String} (h : names.lookup a = none) : (names.map Prod.swap).lookup a = none := by
  rw [Option.eq_none_iff_forall_ne_some]
  intro b hb
  obtain ⟨p, hp, heq⟩ := List.mem_map.1 (Table.mem_of_lookup hb)
  cases heq
  obtain ⟨v, hv⟩ := Table.mem_keys_iff.1 (hvalues.subset (List.mem_map_of_mem hp))
  rw [h] at hv
  cases hv

include hkeys

theorem lookup_swap {a b : String} (h : names.lookup a = some b) : (names.map Prod.swap).lookup b = some a := by
  have hnodup : ((names.map Prod.swap).map (·.1)).Nodup := by
    rw [List.map_map]
    exact hvalues.nodup_iff.2 hkeys
  exact (Table.lookup_eq_some_iff hnodup).2 (List.mem_map.2 ⟨(a, b), Table.mem_of_lookup h, rfl⟩)

/-- Renaming an id and then renaming it in the other direction gives the id. -/
theorem newName_swap (id : String) : newName (names.map Prod.swap) (newName names id) = id := by
  unfold newName
  cases h : names.lookup id with
  | none =>
    show ((names.map Prod.swap).lookup id).getD id = id
    rw [lookup_swap_eq_none hvalues h]
    rfl
  | some t =>
    show ((names.map Prod.swap).lookup t).getD t = id
    rw [lookup_swap hkeys hvalues h]
    rfl

theorem newName_injective : Function.Injective (newName names) :=
  Function.LeftInverse.injective (newName_swap hkeys hvalues)

theorem renameEdge_swap (e : Edge) : renameEdge (names.map Prod.swap) (renameEdge names e) = e := by
  rw [renameEdge, renameEdge, newName_swap hkeys hvalues, newName_swap hkeys hvalues]

/-- Renaming an expression and then renaming it in the other direction gives the expression. -/
theorem renameExpression_swap (hnames : ∀ t ∈ names.values, Nameable t) (hempty : "" ∉ names.keys) (e : String) :
    Reference.renameExpression (names.map Prod.swap) (Reference.renameExpression names e) = e := by
  cases hr : Reference.ofExpression? e with
  | none =>
    have hsame : ∀ t : Table String, Reference.renameExpression t e = e := fun t => by
      rw [Reference.renameExpression, hr]
    rw [hsame, hsame]
  | some r =>
    obtain ⟨rfl, hkey⟩ := Reference.eq_expression_of_ofExpression? hr
    have hrename : ∀ (t : Table String) (s : Reference), Reference.ofExpression? s.expression = some s →
        Reference.renameExpression t s.expression = Reference.expression ⟨newName t s.node, s.key⟩ := by
      intro t s hs
      unfold Reference.renameExpression newName
      rw [hs]
      cases h : t.lookup s.node <;> simp [h]
    rw [hrename names r hr]
    have hback : Reference.ofExpression? (Reference.expression ⟨newName names r.node, r.key⟩)
        = some ⟨newName names r.node, r.key⟩ := by
      unfold newName
      cases ht : names.lookup r.node with
      | none => exact hr
      | some t =>
        have hmem : t ∈ names.values := List.mem_map_of_mem (Table.mem_of_lookup ht)
        refine Reference.ofExpression?_of_forall (fun hnil => hempty ?_) hkey fun c hc => ?_
        · exact hvalues.subset (hnil ▸ hmem)
        · exact ⟨(hnames t hmem c hc).1, (hnames t hmem c hc).2.1⟩
    rw [hrename _ _ hback, newName_swap hkeys hvalues]

end Turned

/-! ### Renaming graphs -/

/-- The new expressions of a canonical graph are plain. -/
theorem plain_renamed (hg : g.CanonicalInputs) (hnames : ∀ t ∈ names.values, Nameable t) :
    ∀ n ∈ g.nodes, ∀ s ∈ n.inputs.texts, ∀ e ∈ Template.expressions (Template.parse s),
      Template.Plain (Reference.renameExpression names e) :=
  fun n hn s hs e he => Reference.plain_renameExpression hnames ((hg n hn s hs).plain e he)

/-- **A renamed graph has the old expressions with their ids renamed once.** -/
theorem visitExpressions_renameNodes (hg : g.CanonicalInputs) (hnames : ∀ t ∈ names.values, Nameable t) :
    (renameNodes names g).nodes.map (fun n => Template.visitExpressions n.inputs)
      = g.nodes.map fun n => (Template.visitExpressions n.inputs).map (Reference.renameExpression names) := by
  rw [nodes_renameNodes_of_canonical names hg, List.map_map]
  refine List.map_congr_left fun n hn => ?_
  show Template.visitExpressions (n.inputs.mapTexts _) = _
  rw [← Reference.rename_eq_mapTexts]
  refine Reference.visitExpressions_rename fun e he => ?_
  obtain ⟨s, hs, he⟩ := Template.mem_visitExpressions_iff.1 he
  exact plain_renamed hg hnames n hn s hs e he

theorem canonicalInputs_renameNodes (hg : g.CanonicalInputs) (hnames : ∀ t ∈ names.values, Nameable t) :
    (renameNodes names g).CanonicalInputs := by
  intro m hm s hs
  rw [nodes_renameNodes_of_canonical names hg] at hm
  obtain ⟨n, hn, rfl⟩ := List.mem_map.1 hm
  rw [Value.texts_mapTexts] at hs
  obtain ⟨u, hu, rfl⟩ := List.mem_map.1 hs
  exact Template.canonical_rewriteText (plain_renamed hg hnames n hn u hu)

/-- **Renaming in the other direction gives the graph again** if the new names are the old ones in another order, and
none is empty. -/
theorem renameNodes_swap (hg : g.CanonicalInputs) (hnames : ∀ t ∈ names.values, Nameable t)
    (hkeys : names.keys.Nodup) (hvalues : names.values.Perm names.keys) (hempty : "" ∉ names.keys) :
    renameNodes (names.map Prod.swap) (renameNodes names g) = g := by
  have htwice : Reference.renameExpression (names.map Prod.swap) ∘ Reference.renameExpression names = id :=
    funext fun e => renameExpression_swap hkeys hvalues hnames hempty e
  refine Graph.ext ?_ ?_
  · rw [nodes_renameNodes_of_canonical _ (canonicalInputs_renameNodes hg hnames),
      nodes_renameNodes_of_canonical names hg, List.map_map]
    refine map_eq_self_iff.2 fun n hn => ?_
    have hinputs : (n.inputs.mapTexts (Template.rewriteText (Reference.renameExpression names))).mapTexts
        (Template.rewriteText (Reference.renameExpression (names.map Prod.swap))) = n.inputs := by
      rw [Value.mapTexts_mapTexts, Value.mapTexts_congr (g := id) fun s hs => ?_, Value.mapTexts_id]
      rw [Function.comp_apply, Template.rewriteText_rewriteText (plain_renamed hg hnames n hn s hs), htwice]
      exact hg n hn s hs
    show { n with inputs := _ } = n
    rw [hinputs]
  · have hback : (g.edges.map (renameEdge names)).map (renameEdge (names.map Prod.swap)) = g.edges := by
      rw [List.map_map]
      exact map_eq_self_iff.2 fun e _ => renameEdge_swap hkeys hvalues e
    rw [edges_renameNodes, edges_renameNodes_of_injective (newName_injective hkeys hvalues), hback,
      eraseDups_filter_edges]

/-- **Renaming is one substitution of ids for ids.**  In a graph with canonical inputs, under names that can stand in
references, the expressions of each node are the old ones with their ids renamed once, the edges are the images of
the old ones at their first places and without loops, and all else is as it was: the nodes in their order, and the
texts between the tokens.  If the new names are the old ones in another order and none is empty, renaming in the
other direction gives the graph again. -/
theorem renameNodes_substitutes (names : Table String) (hg : g.CanonicalInputs)
    (hnames : ∀ t ∈ names.values, Nameable t) :
    (renameNodes names g).nodes = g.nodes.map (fun n =>
        { n with inputs := n.inputs.mapTexts (Template.rewriteText (Reference.renameExpression names)) }) ∧
      (∀ n ∈ g.nodes, ∀ s ∈ n.inputs.texts,
        Template.parse (Template.rewriteText (Reference.renameExpression names) s)
          = (Template.parse s).map (Template.rewriteSegment (Reference.renameExpression names))) ∧
      (renameNodes names g).nodes.map (fun n => Template.visitExpressions n.inputs)
        = g.nodes.map (fun n => (Template.visitExpressions n.inputs).map (Reference.renameExpression names)) ∧
      (renameNodes names g).edges = ((g.edges.map (renameEdge names)).filter fun e => !e.isLoop).eraseDups ∧
      (names.keys.Nodup → names.values.Perm names.keys → "" ∉ names.keys →
        renameNodes (names.map Prod.swap) (renameNodes names g) = g) := by
  refine ⟨nodes_renameNodes_of_canonical names hg, fun n hn s hs => ?_, visitExpressions_renameNodes hg hnames,
    edges_renameNodes names g, renameNodes_swap hg hnames⟩
  exact Template.parse_rewriteText (plain_renamed hg hnames n hn s hs)

/-- Three modules, the last of which refers to the first two. -/
def trio : Infrastructure :=
  Graph.ofParts
    [InfraNode.create ⟨"module", "a", none, none⟩ "img" .pulumi,
      InfraNode.create ⟨"module", "b", none, none⟩ "img" .pulumi,
      { InfraNode.create ⟨"module", "c", none, none⟩ "img" .pulumi with
        inputs := .obj
          [("hosts", .arr [.str "$\x7b\x7b module/a@blue.host \x7d\x7d:1", .str "$$\x7bmodule/a@blue.host\x7d"]),
            ("port", .str "$\x7b\x7b module/b@blue.ports[0] \x7d\x7d")] }]
    [⟨"module/c@blue", "module/a@blue"⟩, ⟨"module/c@blue", "module/b@blue"⟩]

/-- The first two in each other's place. -/
def exchanged : Table String := [("module/a@blue", "module/b@blue"), ("module/b@blue", "module/a@blue")]

/-- Two modules are exchanged and exchanged back. -/
theorem renameNodes_substitutes_exchanged :
    (renameNodes exchanged trio).nodes.map (fun n => Template.visitExpressions n.inputs)
        = [[], [], ["module/b@blue.host", "module/a@blue.ports[0]"]] ∧
      (renameNodes exchanged trio).edges
        = [⟨"module/c@blue", "module/b@blue"⟩, ⟨"module/c@blue", "module/a@blue"⟩] ∧
      renameNodes (exchanged.map Prod.swap) (renameNodes exchanged trio) = trio := by
  obtain ⟨-, -, hexpressions, hedges, hback⟩ :=
    renameNodes_substitutes (g := trio) exchanged (by decide +kernel) (by decide +kernel)
  refine ⟨hexpressions.trans (by decide +kernel), hedges.trans (by decide +kernel), hback ?_ ?_ ?_⟩
  · decide
  · exact List.Perm.swap _ _ _
  · decide

/-- A module that refers to a node with a short id. -/
def nicknamed : Infrastructure :=
  Graph.ofParts
    [{ InfraNode.create ⟨"module", "c", none, none⟩ "img" .pulumi with
        inputs := .obj [("t", .str "$\x7b\x7b a.k \x7d\x7d")] }] []

/-- **A reference does not come back from an empty id.**  The new names are the old ones in another order, and hold
neither dots nor blanks nor closing braces. -/
theorem not_restored_empty :
    nicknamed.CanonicalInputs ∧ (∀ t ∈ Table.values [("a", ""), ("", "a")], Nameable t) ∧
      (Table.keys [("a", ""), ("", "a")]).Nodup ∧
      (Table.values [("a", ""), ("", "a")]).Perm (Table.keys [("a", ""), ("", "a")]) ∧
      renameNodes (List.map Prod.swap [("a", ""), ("", "a")]) (renameNodes [("a", ""), ("", "a")] nicknamed)
        ≠ nicknamed := by
  refine ⟨by decide +kernel, by decide +kernel, by decide, List.Perm.swap _ _ _, fun heq => ?_⟩
  have hinputs : (renameNodes (List.map Prod.swap [("a", ""), ("", "a")])
      (renameNodes [("a", ""), ("", "a")] nicknamed)).nodes.map (·.inputs) ≠ nicknamed.nodes.map (·.inputs) := by
    decide +kernel
  exact hinputs (congrArg (fun g => List.map InfraNode.inputs (Graph.nodes g)) heq)

end Infrastructure

end Groundwork
