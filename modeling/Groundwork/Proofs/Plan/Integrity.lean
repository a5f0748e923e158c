import Groundwork.Proofs.Plan.Deletions
import Groundwork.Proofs.Plan.Resolution
import Groundwork.Proofs.Template.Settling

/-!
# What a plan makes of a target

A plan has one node that lives for each wanted node, in the same order.  All ids are renamed at once: a node that
is replaced gets the other color, and so do the edges and the references that name it.  An edge between live nodes
is the image of a wanted edge, and a token of a node that is created or updated is the image of a wanted token, unless
that held the end of a token and broke up when it was written anew.

Main statement: a plan for a compiled target has the live nodes, the edges between them and the tokens that the
target has, under new names, save for the tokens of nodes with a token that breaks up (`plan_keeps_references`).
-/

namespace Groundwork.Plan

open Infrastructure
open Compile (Closed)

variable {now : Instant} {before after : Infrastructure} {n m : InfraNode}

/-! ### Live nodes, in order -/

/-- The nodes of a graph that are no deletions, in order. -/
def living (g : Infrastructure) : List InfraNode := g.nodes.filter (·.action ≠ .delete)

theorem mem_living {g : Infrastructure} : m ∈ living g ↔ m ∈ g.nodes ∧ m.action ≠ .delete := by
  rw [living, List.mem_filter, decide_eq_true_eq]

/-- A node of a plan that follows a wanted one: it stands for it and belongs to the same app node.  What is kept has
the color of the incarnation that lives, and what is made anew has another color than the incarnation before it. -/
structure Follows (before : Infrastructure) (n m : InfraNode) : Prop extends StandsFor before n m where
  appNode : m.appNode = n.appNode
  kept : m.action ≠ .create →
    ∃ p, previous? before n.key = some p ∧ p.action ≠ .delete ∧ m.color = p.color
  recreated : m.action = .create → ∀ p, previous? before n.key = some p → m.color ≠ p.color

theorem appNode_next (before : Infrastructure) (n : InfraNode) : (next before n).appNode = n.appNode :=
  (congrArg InfraNode.appNode (next_eq before n)).trans rfl

/-- An update keeps the color of what it follows. -/
theorem color_next_of_kept {p : InfraNode} (hp : previous? before n.key = some p) (hkeep : mustRecreate p = false) :
    (next before n).color = p.color ∧ (next before n).action = .update := by
  rw [next_eq_of_kept hp hkeep]
  exact ⟨rfl, rfl⟩

/-- A replacement takes the other color. -/
theorem color_next_of_recreated {p : InfraNode} (hp : previous? before n.key = some p)
    (hre : mustRecreate p = true) : (next before n).color ≠ p.color ∧ (next before n).action = .create := by
  rw [next_eq_of_recreated hp hre]
  refine ⟨?_, rfl⟩
  show p.color.flipped ≠ p.color
  cases p.color <;> decide

theorem action_next_of_new (hp : previous? before n.key = none) : (next before n).action = .create := by
  rw [next_eq_of_new hp]

/-- What stands for a wanted node before the search follows it. -/
theorem follows_planned (before after : Infrastructure) (n : InfraNode) :
    Follows before n (planned before after n) where
  key := key_next before n
  id := rfl
  image := image_next before n
  plugin := plugin_next before n
  action := action_next_ne_delete before n
  state := rfl
  appNode := appNode_next before n
  kept hkept := by
    cases hp : previous? before n.key with
    | none => exact absurd (action_next_of_new hp) hkept
    | some p =>
      cases hre : mustRecreate p with
      | true => exact absurd (color_next_of_recreated hp hre).2 hkept
      | false => exact ⟨p, rfl, (mustRecreate_eq_false_iff.1 hre).1, (color_next_of_kept hp hre).1⟩
  recreated hcreate p hp := by
    cases hre : mustRecreate p with
    | true => exact (color_next_of_recreated hp hre).1
    | false =>
      have hupdate := (color_next_of_kept hp hre).2
      exact absurd (hcreate.symm.trans hupdate) (by decide)

/-- So does what was found unchanged. -/
theorem follows_marked {c : Candidate} (hc : candidate? before n = some c) (inputs : Value) :
    Follows before n (marked now c inputs (planned before after n)) := by
  have hplanned := follows_planned before after n
  obtain ⟨p, hp, hkeep, -, -⟩ := candidate?_eq_some_iff.1 hc
  have hcolor := (color_next_of_kept hp hkeep).1
  exact ⟨⟨⟨hplanned.key, hplanned.id, hplanned.image, hplanned.plugin, nofun⟩,
    (state_next_of_candidate hc).2.symm⟩, hplanned.appNode,
    fun _ => ⟨p, hp, (mustRecreate_eq_false_iff.1 hkeep).1, hcolor⟩, nofun⟩

/-- Whether a node of a plan is as it was before the search, or was found unchanged. -/
def Searched (now : Instant) (before after : Infrastructure) (k m : InfraNode) : Prop :=
  m = k ∨ ∃ c ∈ candidates before after, k.id = c.id ∧ ∃ inputs, m = marked now c inputs k

/-- **The search leaves the nodes in their places.** -/
theorem forall₂_searched (now : Instant) (before after : Infrastructure) :
    List.Forall₂ (Searched now before after) (skeleton before after).nodes (plan now before after).nodes := by
  refine graph_findUnchanged_induction (candidates before after)
    (P := fun g => List.Forall₂ (Searched now before after) (skeleton before after).nodes g.nodes) ?_
    (List.forall₂_same.2 fun _ _ => Or.inl rfl)
  intro g c inputs hc _ hg
  show List.Forall₂ _ _ (g.nodes.map fun m => if m.id = c.id then marked now c inputs m else m)
  rw [List.forall₂_map_right_iff]
  refine hg.imp fun k m hkm => ?_
  have hid : m.id = k.id := by
    rcases hkm with rfl | ⟨c', -, -, inputs', rfl⟩
    · rfl
    · rfl
  split
  · rename_i hmc
    refine Or.inr ⟨c, hc, hid.symm.trans hmc, inputs, ?_⟩
    -- marking a node again leaves nothing of the first time
    rcases hkm with rfl | ⟨c', -, -, inputs', rfl⟩
    · rfl
    · rfl
  · exact hkm

/-- What was found unchanged is no deletion, since no deletion has the id of a live node. -/
theorem Searched.action_iff {k : InfraNode} (hk : k ∈ (skeleton before after).nodes)
    (h : Searched now before after k m) : k.action ≠ .delete ↔ m.action ≠ .delete := by
  rcases h with rfl | ⟨c, hc, hid, inputs, rfl⟩
  · exact Iff.rfl
  · refine iff_of_true ?_ nofun
    obtain ⟨n, hn, hcn⟩ := List.mem_filterMap.1 hc
    rcases planned_or_deletion_of_mem_skeleton hk with ⟨n', -, rfl⟩ | ⟨p, hp, rfl⟩
    · exact action_next_ne_delete before n'
    · exact absurd ((state_next_of_candidate hcn).1.trans hid.symm) ((mem_deleted.1 hp).2.2 n hn)

theorem living_skeleton (hids : DistinctIds before after) :
    living (skeleton before after) = after.nodes.map (planned before after) := by
  have hlive : ∀ k ∈ after.nodes.map (planned before after), decide (k.action ≠ .delete) = true := by
    intro k hk
    obtain ⟨n, -, rfl⟩ := List.mem_map.1 hk
    exact decide_eq_true (action_next_ne_delete before n)
  have hgone : ∀ k ∈ (deleted before after).map deletion, ¬ decide (k.action ≠ .delete) = true := by
    intro k hk
    obtain ⟨p, -, rfl⟩ := List.mem_map.1 hk
    simp [deletion]
  rw [living, nodes_skeleton, nodes_live hids, List.filter_append]
  show (after.nodes.map (planned before after)).filter _ ++ _ = _
  rw [List.filter_eq_self.2 hlive, List.filter_eq_nil_iff.2 hgone, List.append_nil]

/-- **A plan has one live node for each wanted one, in the same order**: what it was before the search, or that
found unchanged. -/
theorem forall₂_living (now : Instant) (before : Infrastructure) (hblue : ∀ n ∈ after.nodes, n.color = .blue) :
    List.Forall₂ (fun n m => Follows before n m ∧ (m.action ≠ .noOp → m = planned before after n)) after.nodes
      (living (plan now before after)) := by
  have hids := distinctIds_of_blue before hblue
  have hnodes := (List.forall₂_and_left (p := fun k => k ∈ (skeleton before after).nodes) _ _).2
    ⟨fun _ hk => hk, forall₂_searched now before after⟩
  have hliving : List.Forall₂ (fun k m => k ∈ (skeleton before after).nodes ∧ Searched now before after k m)
      (living (skeleton before after)) (living (plan now before after)) := by
    refine List.rel_filter (fun k m hkm => ?_) hnodes
    exact decide_eq_true_iff.trans ((hkm.2.action_iff hkm.1).trans decide_eq_true_iff.symm)
  rw [living_skeleton hids, List.forall₂_map_left_iff] at hliving
  have hwanted := (List.forall₂_and_left (p := fun n => n ∈ after.nodes) _ _).2 ⟨fun _ hn => hn, hliving⟩
  refine hwanted.imp fun n m hnm => ?_
  obtain ⟨hn, -, rfl | ⟨c, hc, hid, inputs, rfl⟩⟩ := hnm
  · exact ⟨follows_planned before after n, fun _ => rfl⟩
  · obtain ⟨n', hn', hcn⟩ := List.mem_filterMap.1 hc
    have hsame : n' = n :=
      eq_of_id_next_eq hblue hn' hn ((state_next_of_candidate hcn).1.trans hid.symm)
    subst hsame
    exact ⟨follows_marked hcn inputs, fun hno => absurd rfl hno⟩

/-! ### Edges -/

/-- Whether a graph has a live node of an id. -/
def Lives (g : Infrastructure) (id : String) : Prop := ∃ k ∈ living g, k.id = id

theorem lives_next (now : Instant) (hblue : ∀ n ∈ after.nodes, n.color = .blue) (hn : n ∈ after.nodes) :
    Lives (plan now before after) (next before n).id := by
  obtain ⟨m, hm, hs⟩ := exists_standsFor now hblue hn
  exact ⟨m, mem_living.2 ⟨hm, hs.action⟩, hs.id⟩

/-- **The edges between live nodes are the images of the wanted ones.** -/
theorem edge_between_living_iff (hclosed : Closed after) {e : Edge} :
    (e ∈ (plan now before after).edges ∧ Lives (plan now before after) e.source ∧
        Lives (plan now before after) e.target) ↔
      ∃ x ∈ after.edges, e = ⟨newName (newIds before after) x.source, newName (newIds before after) x.target⟩ := by
  rw [edges_plan, mem_edges_skeleton]
  constructor
  · rintro ⟨hlive | ⟨-, -, p, hp, hedge⟩, ⟨k, hk, hsource⟩, -⟩
    · exact (mem_edges_live.1 hlive).2
    · -- an edge of a deletion leaves a node that does not live
      obtain ⟨hk, ha⟩ := mem_living.1 hk
      obtain ⟨n, hn, hid⟩ := mem_ids_live.1 (mem_ids_live_of_mem_plan hk ha)
      refine absurd (hid.trans ?_) ((mem_deleted.1 hp).2.2 n hn)
      exact hsource.trans (mem_deletionEdges.1 hedge).1
  · rintro ⟨x, hx, rfl⟩
    have hends := ((Graph.validate_eq_ok_iff after).1 hclosed.valid).1 x hx
    obtain ⟨n, hn, hnid⟩ := Graph.mem_ids_iff.1 hends.1
    obtain ⟨k, hk, hkid⟩ := Graph.mem_ids_iff.1 hends.2
    have hnid : n.id = x.source := hnid
    have hkid : k.id = x.target := hkid
    rw [← hnid, ← hkid, newName_newIds hn, newName_newIds hk]
    refine ⟨Or.inl (mem_edges_live.2 ⟨decide_eq_false fun hloop => ?_, x, hx, ?_⟩),
      lives_next now hclosed.blue hn, lives_next now hclosed.blue hk⟩
    · have hself : n = k := eq_of_id_next_eq hclosed.blue hn hk hloop
      have hproper := after.edges_proper x hx
      rw [Edge.isLoop, ← hnid, ← hkid, hself] at hproper
      simp at hproper
    · rw [← hnid, ← hkid, newName_newIds hn, newName_newIds hk]

/-! ### Tokens -/

/-- Whether the tokens of a node in a plan are those of the wanted one under new names. -/
def Carried (before after : Infrastructure) (n m : InfraNode) : Prop :=
  Template.visitExpressions m.inputs
    = (Template.visitExpressions n.inputs).map (Reference.renameExpression (newIds before after))

/-- Whether each token of a node names a live node that it waits for. -/
def Anchored (g : Infrastructure) (m : InfraNode) : Prop :=
  ∀ e ∈ Template.visitExpressions m.inputs, ∃ r, Reference.ofExpression? e = some r ∧ Lives g r.node ∧
    (⟨m.id, r.node⟩ : Edge) ∈ g.edges

/-- **The tokens of a wanted node are carried over exactly if none holds the end of a token.** -/
theorem carried_planned_iff (before : Infrastructure) (hclosed : Closed after) (hn : n ∈ after.nodes) :
    Carried before after n (planned before after n) ↔ Whole n := by
  have htokens : ∀ e ∈ Template.visitExpressions n.inputs,
      Text.trim (Reference.renameExpression (newIds before after) e).toList
          = (Reference.renameExpression (newIds before after) e).toList ∧
        (Template.IsWhole (Reference.renameExpression (newIds before after) e) ↔ Template.IsWhole e) := by
    intro e he
    obtain ⟨k, -, key, hkey, hexpr, hrenamed⟩ := renameExpression_of_token hclosed hn he
    have htrim := Template.trim_of_mem_visitExpressions he
    rw [hrenamed, InfraNode.id, key_next, hexpr]
    rw [hexpr] at htrim
    refine ⟨Reference.trim_expression hkey htrim, ?_⟩
    have hcolors := Reference.expression_recolored k.key (next before k).color k.color key
    rw [Template.IsWhole, Template.IsWhole, Template.contains_closer_recolored hcolors]
    rfl
  rw [Carried, inputs_planned, Reference.rename_eq,
    Template.visitExpressions_rewritten_iff (Reference.rewrites_renamedToken _) fun e he => (htokens e he).1]
  exact forall₂_congr fun e he => (htokens e he).2

/-- What a node with whole tokens refers to lives, and the node waits for it. -/
theorem anchored_planned (now : Instant) (before : Infrastructure) (hclosed : Closed after) (hn : n ∈ after.nodes)
    (hw : Whole n) : Anchored (plan now before after) (planned before after n) := by
  intro e' he'
  rw [visitExpressions_planned before hclosed hn hw] at he'
  obtain ⟨e, he, rfl⟩ := List.mem_map.1 he'
  obtain ⟨k, hk, key, hkey, hexpr, hrenamed⟩ := renameExpression_of_token hclosed hn he
  have href : k.id ∈ n.referencedIds :=
    InfraNode.mem_referencedIds.2 ⟨e, he, ⟨k.id, key⟩, hexpr ▸ Reference.ofExpression?_expression hkey, rfl⟩
  rw [hrenamed]
  exact ⟨⟨(next before k).id, key⟩, Reference.ofExpression?_expression hkey, lives_next now hclosed.blue hk,
    edge_mem_plan now before hclosed hn hk href⟩

/-- **A plan for a compiled target keeps it under new names.**  It has one live node for each wanted one, in the same
order.  The edges between live nodes are the images of the wanted edges.  The tokens of a node that is created or
updated are the images of the wanted tokens exactly if none of these holds the end of a token, and then each names a
live node that its owner waits for.  This is so of every node if there are no closing braces in the names and keys of
references. -/
theorem plan_keeps_references {d : Definition} {app : AppGraph} {options : CompileOptions}
    (hcompile : d.compile app options = .ok after) (now : Instant) (before : Infrastructure) :
    List.Forall₂ (fun n m => Follows before n m ∧ m.id = newName (newIds before after) n.id ∧
        (m.action ≠ .noOp → (Carried before after n m ↔ Whole n) ∧
          (Whole n → Anchored (plan now before after) m)))
      after.nodes (living (plan now before after)) ∧
    (∀ e : Edge, (e ∈ (plan now before after).edges ∧ Lives (plan now before after) e.source ∧
        Lives (plan now before after) e.target) ↔
      ∃ x ∈ after.edges,
        e = ⟨newName (newIds before after) x.source, newName (newIds before after) x.target⟩) ∧
    ((∀ n ∈ after.nodes, ∀ ref ∈ Reference.all n.inputs, '\x7d' ∉ ref.expression.toList) →
      ∀ n ∈ after.nodes, Whole n) := by
  have hclosed := Compile.closed_of_compile hcompile
  refine ⟨?_, fun e => edge_between_living_iff hclosed,
    fun hplain n hn => whole_of_references hclosed hn (hplain n hn)⟩
  have hliving := (List.forall₂_and_left (p := fun n => n ∈ after.nodes) _ _).2
    ⟨fun _ hn => hn, forall₂_living now before hclosed.blue⟩
  refine hliving.imp fun n m hnm => ?_
  obtain ⟨hn, hfollows, hplanned⟩ := hnm
  refine ⟨hfollows, hfollows.id.trans (newName_newIds hn).symm, fun hno => ?_⟩
  rw [hplanned hno]
  exact ⟨carried_planned_iff before hclosed hn, anchored_planned now before hclosed hn⟩

/-- A plan that replaces the third module by the two carries their tokens over. -/
theorem carried_plainText :
    twoModules.compile Graph.empty (given plainText) = .ok (target plainText) ∧
      List.Forall₂ (fun n m => Follows third n m ∧ (m.action ≠ .noOp → Carried third (target plainText) n m ∧
          Anchored (plan Instant.epoch third (target plainText)) m))
        (target plainText).nodes (living (plan Instant.epoch third (target plainText))) := by
  have hcompile : twoModules.compile Graph.empty (given plainText) = .ok (target plainText) :=
    compile_eq_target (by decide +kernel)
  have hplain : ∀ n ∈ (target plainText).nodes, ∀ ref ∈ Reference.all n.inputs,
      '\x7d' ∉ ref.expression.toList := by decide +kernel
  obtain ⟨hliving, -, hwhole⟩ := plan_keeps_references hcompile Instant.epoch third
  have hall := (List.forall₂_and_left (p := Whole) _ _).2 ⟨hwhole hplain, hliving⟩
  refine ⟨hcompile, hall.imp fun n m hnm => ?_⟩
  obtain ⟨hw, hfollows, -, htokens⟩ := hnm
  exact ⟨hfollows, fun hno => ⟨(htokens hno).1.2 hw, (htokens hno).2 hw⟩⟩

/-- **A token that holds the end of a token is cut short in the plan.**  All names are free of closing braces and each
dollar sign begins a token, but what the last module is created with is no reference to an output any more. -/
theorem cut_short_quotedText :
    quoted.compile Graph.empty (given quotedText) = .ok quotedTarget ∧
      (∀ n ∈ quotedTarget.nodes, '\x7d' ∉ n.id.toList) ∧
      (quotedTarget.node? "module/u@blue").map (fun n => Template.visitExpressions n.inputs)
        = some ["module/a@blue.x\x7b\x7b\"", "module/a\"b@blue.\x7d\x7d y\"", "module/a\"b@blue.id"] ∧
      ((plan Instant.epoch Graph.empty quotedTarget).node? "module/u@blue").map
          (fun m => (m.action, Template.visitExpressions m.inputs))
        = some (.create, ["module/a@blue.x\x7b\x7b\"", "module/a\"b@blue.", "module/a\"b@blue.id"]) ∧
      Reference.ofExpression? "module/a\"b@blue." = none := by
  refine ⟨eq_ok_getD ?_ Graph.empty, ?_⟩
  · decide +kernel
  · decide +kernel

end Groundwork.Plan
