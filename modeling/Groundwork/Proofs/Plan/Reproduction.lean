import Groundwork.Proofs.Compile.Closed
import Groundwork.Proofs.Plan.Search
import Groundwork.Proofs.Plan.Successor

/-!
# References in plans, and reproducing what is complete

The inputs of a node in a plan are those of the wanted node with their references renamed, and every token is
written anew with its new name.  If no token holds the end of a token, its references are then those of the
wanted node under their new names.  Otherwise a token may break up, and what comes out of it can refer to any
node; but it breaks up in the same way in every plan.

The inputs of a node that a run completed were resolved by outputs of complete nodes, under the names of the
plan that was run.  A second plan for the same target resolves them by outputs of unchanged nodes, under names
of its own.  What is complete keeps its name, and so does all that a called node refers to; names change only
around what the first plan found unchanged, and there both plans refer to incarnations of the same keys.

Main statements:
* what a wanted node refers to, its incarnation waits for (`edge_mem_plan`), whatever becomes of its tokens; two
  plans refer to incarnations of the same keys (`exists_color_of_referenced`); unbroken tokens refer to what they
  referred to before (`mem_referencedIds_planned`);
* a complete node has its inputs from the outputs of complete nodes (`resolve_outputs_of_complete`); a second plan
  finds all complete nodes again if the inputs of each are reproduced by outputs of complete nodes that live on
  (`foundAgain_of_complete`), and what it finds again is reproduced (`FoundAgain.reproduced`); where no name changes,
  a node is reproduced exactly if it refers to no deleted one (`reproduced_iff`).
-/

namespace Groundwork.Plan

open Relation
open Infrastructure
open Run (Inv Point Reaches Called)
open Compile (Closed)

variable {now now' : Instant} {before after : Infrastructure} {o : RunOptions} {q : Point} {n m k : InfraNode}

/-! ### References in plans -/

theorem inputs_planned (before after : Infrastructure) (n : InfraNode) :
    (planned before after n).inputs = Reference.rename (newIds before after) n.inputs :=
  congrArg (Reference.rename (newIds before after)) (inputs_next before n)

/-- A token of a target refers to a wanted node. -/
theorem exists_of_token (hclosed : Closed after) (hn : n ∈ after.nodes) {e : String}
    (he : e ∈ Template.visitExpressions n.inputs) {r : Reference} (hr : Reference.ofExpression? e = some r) :
    ∃ k ∈ after.nodes, k.id = r.node ∧ (⟨n.id, k.id⟩ : Edge) ∈ after.edges := by
  obtain ⟨r', hr', hmem, hedge⟩ := hclosed.tokens n hn e he
  have hsame : r' = r := Option.some.inj (hr'.symm.trans hr)
  subst hsame
  obtain ⟨k, hk, hid⟩ := Graph.mem_ids_iff.1 hmem
  refine ⟨k, hk, hid, ?_⟩
  rw [show k.id = r'.node from hid]
  exact hedge

/-- **What a wanted node refers to, its incarnation waits for.** -/
theorem edge_mem_plan (now : Instant) (before : Infrastructure) (hclosed : Closed after) (hn : n ∈ after.nodes)
    (hk : k ∈ after.nodes) (href : k.id ∈ n.referencedIds) :
    (⟨(next before n).id, (next before k).id⟩ : Edge) ∈ (plan now before after).edges := by
  obtain ⟨e, he, r, hr, hid⟩ := InfraNode.mem_referencedIds.1 href
  obtain ⟨l, hl, hlid, hedge⟩ := exists_of_token hclosed hn he hr
  have hsame : l = k := Graph.eq_of_id_eq hl hk (hlid.trans hid)
  subst hsame
  rw [edges_plan, mem_edges_skeleton, mem_edges_live]
  refine Or.inl ⟨decide_eq_false fun hloop => ?_, ⟨n.id, l.id⟩, hedge, ?_⟩
  · have hself : n = l := eq_of_id_next_eq hclosed.blue hn hl hloop
    have hproper := after.edges_proper _ hedge
    rw [hself] at hproper
    exact absurd hproper (by simp [Edge.isLoop])
  · rw [newName_newIds hn, newName_newIds hl]

/-- References that keep their names leave the inputs as they are. -/
theorem inputs_planned_congr {g : Infrastructure} (hclosed : Closed after) (hn : n ∈ after.nodes)
    (hsame : ∀ k ∈ after.nodes, k.id ∈ n.referencedIds → (next before k).id = (next g k).id) :
    (planned before after n).inputs = (planned g after n).inputs := by
  rw [inputs_planned, inputs_planned]
  refine Reference.rename_congr fun e he r hr => ?_
  obtain ⟨k, hk, hid, -⟩ := exists_of_token hclosed hn he hr
  rw [← hid, lookup_newIds hk, lookup_newIds hk,
    hsame k hk (InfraNode.mem_referencedIds.2 ⟨e, he, r, hr, hid.symm⟩)]

/-! ### Tokens under their new names -/

/-- A token of a target and what becomes of it in any plan. -/
theorem renameExpression_of_token (hclosed : Closed after) (hn : n ∈ after.nodes) {e : String}
    (he : e ∈ Template.visitExpressions n.inputs) :
    ∃ k ∈ after.nodes, ∃ key, key ≠ "" ∧ e = Reference.expression ⟨k.id, key⟩ ∧ ∀ before,
      Reference.renameExpression (newIds before after) e = Reference.expression ⟨(next before k).id, key⟩ := by
  obtain ⟨r, hr, -⟩ := hclosed.tokens n hn e he
  obtain ⟨k, hk, hid, -⟩ := exists_of_token hclosed hn he hr
  obtain ⟨hexpr, hkey⟩ := Reference.eq_expression_of_ofExpression? hr
  refine ⟨k, hk, r.key, hkey, ?_, fun before => ?_⟩
  · rw [hid]
    exact hexpr
  · unfold Reference.renameExpression
    rw [hr]
    dsimp only
    rw [← hid, lookup_newIds hk]
    rfl

/-- **Two plans refer to incarnations of the same keys**, however badly their tokens break up. -/
theorem exists_color_of_referenced (before : Infrastructure) {g : Infrastructure} (hclosed : Closed after)
    (hn : n ∈ after.nodes) {k : Key} {c : Color}
    (href : InfraNode.idOf k c ∈ (planned g after n).referencedIds) :
    ∃ d, InfraNode.idOf k d ∈ (planned before after n).referencedIds := by
  obtain ⟨e', he', s, hs, hid⟩ := InfraNode.mem_referencedIds.1 href
  have hsame : Template.SameTokens (Template.visitExpressions (planned before after n).inputs)
      (Template.visitExpressions (planned g after n).inputs) := by
    rw [inputs_planned, inputs_planned]
    refine Template.visitExpressions_recolored (Reference.rewrites_renamedToken _)
      (Reference.rewrites_renamedToken _) fun e he => ?_
    obtain ⟨l, -, key, -, -, hrenamed⟩ := renameExpression_of_token hclosed hn he
    rw [hrenamed, hrenamed, InfraNode.id, InfraNode.id, key_next, key_next]
    exact Reference.expression_recolored l.key _ _ key
  obtain ⟨e, he, hcolors⟩ := hsame.exists_of_mem he'
  obtain ⟨r, hr, hnode⟩ := Reference.ofExpression?_recolored hcolors hs
  obtain ⟨d, hd⟩ := hnode k c hid
  exact ⟨d, InfraNode.mem_referencedIds.2 ⟨e, he, r, hr, hd⟩⟩

/-! ### Tokens that do not break up -/

/-- Whether no token holds the end of a token. -/
def Unbroken (after : Infrastructure) : Prop :=
  ∀ n ∈ after.nodes, ∀ e ∈ Template.visitExpressions n.inputs,
    Text.contains ['\x7d', '\x7d'] e.toList = false

instance (after : Infrastructure) : Decidable (Unbroken after) :=
  inferInstanceAs (Decidable (∀ n ∈ after.nodes, ∀ e ∈ Template.visitExpressions n.inputs, _))

/-- Whether no token of a node holds the end of a token. -/
def Whole (n : InfraNode) : Prop :=
  ∀ e ∈ Template.visitExpressions n.inputs, Text.contains ['\x7d', '\x7d'] e.toList = false

/-- **Unbroken tokens stay tokens under their new names.** -/
theorem visitExpressions_planned (before : Infrastructure) (hclosed : Closed after) (hn : n ∈ after.nodes)
    (hw : Whole n) :
    Template.visitExpressions (planned before after n).inputs
      = (Template.visitExpressions n.inputs).map (Reference.renameExpression (newIds before after)) := by
  rw [inputs_planned]
  refine Reference.visitExpressions_rename fun e he => ?_
  obtain ⟨k, -, key, hkey, hexpr, hrenamed⟩ := renameExpression_of_token hclosed hn he
  have hplain : Template.Plain (Reference.expression ⟨InfraNode.idOf k.key k.color, key⟩) := by
    rw [show Reference.expression ⟨InfraNode.idOf k.key k.color, key⟩ = e from hexpr.symm]
    exact ⟨Template.trim_of_mem_visitExpressions he, hw e he⟩
  have hnew := Reference.plain_expression (d := (next before k).color) hkey hplain
  rw [hrenamed, InfraNode.id, key_next]
  exact hnew

/-- **The references of a node in a plan are those of the wanted node, renamed.** -/
theorem mem_referencedIds_planned (before : Infrastructure) (hclosed : Closed after) (hn : n ∈ after.nodes)
    (hw : Whole n) {id : String} :
    id ∈ (planned before after n).referencedIds ↔
      ∃ k ∈ after.nodes, k.id ∈ n.referencedIds ∧ (next before k).id = id := by
  have hsplit : ∀ (k : InfraNode) (key : String), key ≠ "" →
      Reference.ofExpression? (Reference.expression ⟨k.id, key⟩) = some ⟨k.id, key⟩ :=
    fun k key hkey => Reference.ofExpression?_expression hkey
  rw [InfraNode.mem_referencedIds, visitExpressions_planned before hclosed hn hw]
  constructor
  · rintro ⟨e', he', r, hr, hid⟩
    obtain ⟨e, he, rfl⟩ := List.mem_map.1 he'
    obtain ⟨k, hk, key, hkey, hexpr, hrenamed⟩ := renameExpression_of_token hclosed hn he
    rw [hrenamed, hsplit _ key hkey] at hr
    cases hr
    refine ⟨k, hk, InfraNode.mem_referencedIds.2 ⟨e, he, ⟨k.id, key⟩, ?_, rfl⟩, hid⟩
    rw [hexpr]
    exact hsplit k key hkey
  · rintro ⟨k, hk, href, rfl⟩
    obtain ⟨e, he, r, hr, hid⟩ := InfraNode.mem_referencedIds.1 href
    obtain ⟨l, hl, key, hkey, hexpr, hrenamed⟩ := renameExpression_of_token hclosed hn he
    rw [hexpr, hsplit l key hkey] at hr
    cases hr
    have hsame : l = k := Graph.eq_of_id_eq hl hk hid
    subst hsame
    refine ⟨_, List.mem_map.2 ⟨e, he, rfl⟩, ⟨(next before l).id, key⟩, ?_, rfl⟩
    rw [hrenamed]
    exact hsplit _ key hkey

/-! ### Unchanged nodes -/

/-- The complete nodes of a plan are those that can be found unchanged. -/
theorem found_of_complete (hblue : ∀ n ∈ after.nodes, n.color = .blue)
    (hm : m ∈ (plan now before after).nodes) (hc : m.isComplete = true) :
    Found now (skeleton before after) (candidates before after) m :=
  (mem_plan_noOp_iff hblue).1 ⟨hm, (isComplete_iff_of_mem_plan hm).1 hc⟩

/-- What was found unchanged stays as it is in any run. -/
theorem Found.mem_of_reaches (hblue : ∀ n ∈ after.nodes, n.color = .blue)
    (hfound : Found now (skeleton before after) (candidates before after) m)
    (h : Reaches o (Point.start (plan now before after)) q) :
    m ∈ q.run.graph.nodes ∧ m.isComplete = true ∧ m.action ≠ .delete := by
  obtain ⟨hm, hno⟩ := (mem_plan_noOp_iff hblue).2 hfound
  have hc := (isComplete_iff_of_mem_plan hm).2 hno
  refine ⟨(Inv.start o _).complete_mem_of_reaches h hm hc, hc, ?_⟩
  rw [hno]
  exact fun e => by cases e

/-- What is not complete is as it was before the search. -/
theorem eq_planned_of_incomplete (hblue : ∀ n ∈ after.nodes, n.color = .blue)
    (hm : m ∈ (plan now before after).nodes) (hc : m.isComplete = false) (hn : n ∈ after.nodes)
    (hid : m.id = (next before n).id) : m = planned before after n := by
  rcases mem_nodes_plan hm with hm | ⟨c, -, k, -, -, inputs, rfl⟩
  · exact eq_planned hblue hm hn hid
  · cases hc

/-- What is found was complete, and it has kept its id, its outputs and its state. -/
theorem Found.exists_complete (hblue : ∀ n ∈ after.nodes, n.color = .blue)
    (h : Found now (skeleton before after) (candidates before after) m) :
    ∃ p ∈ before.nodes, p.isComplete = true ∧ p.action ≠ .delete ∧ p.id = m.id ∧ p.outputs = m.outputs ∧
      p.state = m.state := by
  cases h with
  | mark hc hn hid known named resolved same =>
    obtain ⟨j, hj, hcj, rfl⟩ := exists_of_candidate hblue hc hn hid
    obtain ⟨p, hp, hkeep, hpc, rfl⟩ := candidate?_eq_some_iff.1 hcj
    obtain ⟨hmem, hkey⟩ := of_previous?_eq_some hp
    exact ⟨p, hmem, hpc, (mustRecreate_eq_false_iff.1 hkeep).1, (next_of_kept hp hkey hkeep).1.symm, rfl, rfl⟩

/-! ### Inputs of complete nodes -/

/-- A node that was called has the same inputs in the second plan as in the first, before they are resolved: it
was not called before all that it refers to was complete, and what is complete keeps its name. -/
theorem inputs_planned_of_called (hclosed : Closed after) (hp : Inv o (plan now before after) q)
    {i : Infrastructure} (hi : ∀ k ∈ i.nodes, k.isComplete = true → k ∈ q.run.graph.nodes)
    (hedges : i.edges = (plan now before after).edges) {j : InfraNode}
    (hcall : Called (plan now before after) i j m) (hn : n ∈ after.nodes) (hnm : Incarnation before n m) :
    (planned before after n).inputs = (planned q.run.graph after n).inputs := by
  refine inputs_planned_congr hclosed hn fun k hk href => ?_
  have hedge := edge_mem_plan now before hclosed hn hk href
  rw [← hedges] at hedge
  have hsource : j.id = (next before n).id := hcall.same.id.symm.trans hnm.id
  obtain ⟨l, hl, hlid, hlc⟩ := isCompleteId_iff.1 (isUnblocked_iff.1 hcall.unblocked _ hedge hsource.symm)
  have hdone : isCompleteId q.run.graph (next before k).id = true :=
    isCompleteId_iff.2 ⟨l, hi l hl hlc, hlid, hlc⟩
  exact (id_next_of_isCompleteId hclosed.blue hp hk hdone).symm

/-- A called node is as it was planned. -/
theorem eq_planned_of_called (hblue : ∀ n ∈ after.nodes, n.color = .blue) {i : Infrastructure} {j : InfraNode}
    (hcall : Called (plan now before after) i j m) (hn : n ∈ after.nodes) (hnm : Incarnation before n m) :
    j = planned before after n :=
  eq_planned_of_incomplete hblue hcall.mem hcall.incomplete hn (hcall.same.id.symm.trans hnm.id)

/-- **A complete node has its inputs from the outputs of complete nodes**, some of which may be deletions. -/
theorem resolve_outputs_of_complete (hclosed : Closed after)
    (h : Reaches o (Point.start (plan now before after)) q) (hm : m ∈ q.run.graph.nodes)
    (hc : m.isComplete = true) (hn : n ∈ after.nodes) (hnm : Incarnation before n m) :
    Reference.resolve (Infrastructure.outputs q.run.graph) (planned before after n).inputs = .ok m.inputs := by
  have key : ∀ n ∈ after.nodes, Incarnation before n m →
      Reference.resolve (Infrastructure.outputs q.run.graph) (planned before after n).inputs = .ok m.inputs := by
    refine Run.completed_induction (fun x hx => (isComplete_iff_of_mem_plan hx).2) h
      (P := fun m => ∀ n ∈ after.nodes, Incarnation before n m →
        Reference.resolve (Infrastructure.outputs q.run.graph) (planned before after n).inputs = .ok m.inputs)
      ?_ ?_ hm hc hnm.action
    · intro m hm _ hc _ n hn hnm
      obtain ⟨outputs, hres, hknown, -⟩ := (found_of_complete hclosed.blue hm hc).resolution hclosed.blue hn hnm.id
      refine Reference.resolve_mono hres fun e he r hr v hv => ?_
      obtain ⟨k, hk, hkid, hko⟩ := hknown r.node (InfraNode.mem_referencedIds.2 ⟨e, he, r, hr, rfl⟩) v hv
      obtain ⟨hkmem, hkc, -⟩ := hk.mem_of_reaches hclosed.blue h
      exact lookup_outputs.2 ⟨k, hkmem, hkid, hkc, hko⟩
    · intro i j m hi _ hcall _ _ _ n hn hnm
      have hplanned := eq_planned_of_called hclosed.blue hcall hn hnm
      subst hplanned
      refine Reference.resolve_of_within (fun id v hv => ?_) hcall.resolved
      obtain ⟨k, hk, hkid, hkc, hko⟩ := lookup_outputs.1 hv
      exact lookup_outputs.2 ⟨k, (hi k hk hkc).1, hkid, hkc, hko⟩
  exact key n hn hnm

/-! ### What can be reproduced -/

/-- The outputs that a plan can know of: those of complete nodes that are no deletions. -/
def livingOutputs (g : Infrastructure) : Table Value :=
  (g.nodes.filter fun n => n.isComplete && decide (n.action ≠ .delete)).filterMap
    fun n => n.outputs.map fun v => (n.id, v)

theorem lookup_livingOutputs {g : Infrastructure} {id : String} {v : Value} :
    (livingOutputs g).lookup id = some v ↔
      ∃ n ∈ g.nodes, n.id = id ∧ (n.isComplete = true ∧ n.action ≠ .delete) ∧ n.outputs = some v := by
  have h : (livingOutputs g).lookup id = some v ↔
      ∃ n ∈ g.nodes, n.id = id ∧ (n.isComplete && decide (n.action ≠ .delete)) = true ∧ n.outputs = some v :=
    Table.lookup_filterMap_eq_some_iff g.ids_nodup
  simp only [Bool.and_eq_true, decide_eq_true_eq] at h
  exact h

/-- Whether a node comes by its inputs again: those of the wanted node, under the names that a plan gives,
resolve by the outputs of complete nodes that live on to what has the fingerprint of the node. -/
def Reproduced (g after : Infrastructure) (n m : InfraNode) : Prop :=
  ∃ inputs, Reference.resolve (livingOutputs g) (planned g after n).inputs = .ok inputs ∧
    fingerprint n.plugin n.image inputs = nodeFingerprint m

/-- Whether a plan finds unchanged what has the id, the outputs and the state of a node. -/
def FoundAgain (now : Instant) (g after : Infrastructure) (m : InfraNode) : Prop :=
  ∃ k, Found now (skeleton g after) (candidates g after) k ∧ k.id = m.id ∧ k.outputs = m.outputs ∧
    k.state = m.state

/-- What is found again is reproduced: all that it needs was found as well. -/
theorem FoundAgain.reproduced (hclosed : Closed after) (hp : Inv o (plan now before after) q)
    (hm : m ∈ q.run.graph.nodes) (hc : m.isComplete = true) (hn : n ∈ after.nodes)
    (hnm : Incarnation before n m) (h : FoundAgain now' q.run.graph after m) :
    Reproduced q.run.graph after n m := by
  obtain ⟨k, hk, hkid, -⟩ := h
  have hnext := id_next_of_complete hclosed.blue hp hm hc hnm
  obtain ⟨outputs, hres, hknown, c, hcand, hsame⟩ := hk.resolution hclosed.blue hn (hkid.trans hnext.symm)
  rw [candidate?_of_complete (previous?_eq_some hclosed.blue hp hm hnm) hnm.key hnm.action hc] at hcand
  cases hcand
  refine ⟨k.inputs, Reference.resolve_mono hres fun e he r hr v hv => ?_, hsame⟩
  obtain ⟨x, hx, hxid, hxo⟩ := hknown r.node (InfraNode.mem_referencedIds.2 ⟨e, he, r, hr, rfl⟩) v hv
  obtain ⟨y, hy, hyc, hya, hyid, hyo, -⟩ := hx.exists_complete hclosed.blue
  exact lookup_livingOutputs.2 ⟨y, hy, hyid.trans hxid, ⟨hyc, hya⟩, hyo.trans hxo⟩

/-- What is reproduced is found again if all that it refers to is. -/
theorem Reproduced.foundAgain (hclosed : Closed after) (hp : Inv o (plan now before after) q)
    (hm : m ∈ q.run.graph.nodes) (hc : m.isComplete = true) (hn : n ∈ after.nodes)
    (hnm : Incarnation before n m) (h : Reproduced q.run.graph after n m)
    (known : ∀ y ∈ q.run.graph.nodes, y.isComplete = true → y.action ≠ .delete →
      y.id ∈ (planned q.run.graph after n).referencedIds → FoundAgain now' q.run.graph after y) :
    FoundAgain now' q.run.graph after m := by
  obtain ⟨inputs, hres, hsame⟩ := h
  have hprev := previous?_eq_some hclosed.blue hp hm hnm
  have hnext := id_next_of_complete hclosed.blue hp hm hc hnm
  refine ⟨_, Found.of_exists (List.mem_filterMap.2 ⟨n, hn, candidate?_of_complete hprev hnm.key hnm.action hc⟩)
    (planned_mem_skeleton hclosed.blue hn) hnext ?_ hres ?_, hnext, rfl, rfl⟩
  · intro x hx v hv
    obtain ⟨y, hy, hyid, ⟨hyc, hya⟩, hyo⟩ := lookup_livingOutputs.1 hv
    obtain ⟨k, hk, hkid, hko, -⟩ := known y hy hyc hya (by rw [hyid]; exact hx)
    exact ⟨k, hk, hkid.trans hyid, hko.trans hyo⟩
  · show fingerprint (next q.run.graph n).plugin (next q.run.graph n).image inputs = nodeFingerprint m
    rw [plugin_next, image_next]
    exact hsame


/-- What the first plan found unchanged is found again, if all that is complete is reproduced.  Both plans refer
to incarnations of the same keys, and all that the first one refers to was found by it. -/
theorem foundAgain_of_found (hclosed : Closed after) (h : Reaches o (Point.start (plan now before after)) q)
    (hrep : ∀ y ∈ q.run.graph.nodes, y.isComplete = true → ∀ l ∈ after.nodes, Incarnation before l y →
      Reproduced q.run.graph after l y)
    (hfound : Found now (skeleton before after) (candidates before after) m) (hn : n ∈ after.nodes)
    (hnm : Incarnation before n m) : FoundAgain now' q.run.graph after m := by
  have hp := Inv.of_start h
  induction hfound generalizing n with
  | mark hcand hj hid known named resolved same ih =>
    rename_i c j inputs outputs source
    have hfound := Found.mark hcand hj hid known named resolved same
    obtain ⟨hm, hc, -⟩ := hfound.mem_of_reaches hclosed.blue h
    have hplanned : j = planned before after n := eq_planned hclosed.blue hj hn hnm.id
    subst hplanned
    refine (hrep _ hm hc n hn hnm).foundAgain hclosed hp hm hc hn hnm fun y hy hyc hya hyref => ?_
    obtain ⟨d, href⟩ := exists_color_of_referenced before hclosed hn hyref
    obtain ⟨v, hv⟩ := Reference.exists_output_of_referenced resolved href
    obtain ⟨hsmem, -, hsa⟩ := (known _ href v hv).mem_of_reaches hclosed.blue h
    obtain ⟨k, hk, hks⟩ := exists_incarnation_of_living hclosed.blue hp hsmem hsa
    obtain ⟨l, hl, hly⟩ := exists_incarnation_of_living hclosed.blue hp hy hya
    have hkey : k = l := by
      have hids := (InfraNode.idOf_eq_idOf_iff.1 (named _ href v hv).1).1
      rw [hks.key, hly.key] at hids
      refine Graph.eq_of_id_eq hk hl (InfraNode.idOf_eq_idOf_iff.2 ⟨hids, ?_⟩)
      rw [hclosed.blue k hk, hclosed.blue l hl]
    subst hkey
    have hsame : source (InfraNode.idOf y.key d) = y := Graph.eq_of_id_eq hsmem hy (hks.id.trans hly.id.symm)
    have hagain : FoundAgain now' q.run.graph after (source (InfraNode.idOf y.key d)) := ih _ href v hv hk hks
    rw [hsame] at hagain
    exact hagain

/-- **If all that is complete is reproduced, it is found again**, in the order in which it became complete. -/
theorem foundAgain_of_complete (hclosed : Closed after) (h : Reaches o (Point.start (plan now before after)) q)
    (hrep : ∀ y ∈ q.run.graph.nodes, y.isComplete = true → ∀ l ∈ after.nodes, Incarnation before l y →
      Reproduced q.run.graph after l y)
    (hm : m ∈ q.run.graph.nodes) (hc : m.isComplete = true) (ha : m.action ≠ .delete) :
    FoundAgain now' q.run.graph after m := by
  have hp := Inv.of_start h
  refine Run.completed_induction (fun x hx => (isComplete_iff_of_mem_plan hx).2) h
    (P := FoundAgain now' q.run.graph after) ?_ ?_ hm hc ha
  · intro m hm hmem hc ha
    obtain ⟨n, hn, hnm⟩ := exists_incarnation_of_living hclosed.blue hp hmem ha
    exact foundAgain_of_found hclosed h hrep (found_of_complete hclosed.blue hm hc) hn hnm
  · intro i j m hi hedges hcall hm hc ha
    obtain ⟨n, hn, hnm⟩ := exists_incarnation_of_living hclosed.blue hp hm ha
    have hinputs := inputs_planned_of_called hclosed hp (fun k hk hkc => (hi k hk hkc).1) hedges hcall hn hnm
    have hplanned := eq_planned_of_called hclosed.blue hcall hn hnm
    subst hplanned
    refine (hrep m hm hc n hn hnm).foundAgain hclosed hp hm hc hn hnm fun y hy hyc hya hyref => ?_
    rw [InfraNode.referencedIds, ← hinputs, ← InfraNode.referencedIds] at hyref
    obtain ⟨v, hv⟩ := Reference.exists_output_of_referenced hcall.resolved hyref
    obtain ⟨k, hk, hkid, hkc, -⟩ := lookup_outputs.1 hv
    obtain ⟨hkmem, hkfound⟩ := hi k hk hkc
    have hsame : k = y := Graph.eq_of_id_eq hkmem hy hkid
    subst hsame
    exact hkfound hya

/-! ### References to deleted nodes -/

/-- Whether the inputs of a wanted node refer, as they stand in the plan, to a node that the plan deletes. -/
def RefersToDeleted (before after : Infrastructure) (n : InfraNode) : Prop :=
  ∃ p ∈ deleted before after, p.id ∈ (planned before after n).referencedIds

instance (before after : Infrastructure) (n : InfraNode) : Decidable (RefersToDeleted before after n) :=
  inferInstanceAs (Decidable (∃ p ∈ deleted before after, _))

/-- **A complete node whose inputs keep their names is reproduced exactly if it refers to no deleted node.** -/
theorem reproduced_iff (hclosed : Closed after) (h : Reaches o (Point.start (plan now before after)) q)
    (hm : m ∈ q.run.graph.nodes) (hc : m.isComplete = true) (hn : n ∈ after.nodes)
    (hnm : Incarnation before n m)
    (hinputs : (planned before after n).inputs = (planned q.run.graph after n).inputs) :
    Reproduced q.run.graph after n m ↔ ¬ RefersToDeleted before after n := by
  have hp := Inv.of_start h
  have hrefs : (planned before after n).referencedIds = (planned q.run.graph after n).referencedIds := by
    rw [InfraNode.referencedIds, InfraNode.referencedIds, hinputs]
  constructor
  · rintro ⟨inputs, hres, -⟩ ⟨p, hpd, href⟩
    rw [hrefs] at href
    obtain ⟨v, hv⟩ := Reference.exists_output_of_referenced hres href
    obtain ⟨y, hy, hyid, ⟨-, hya⟩, -⟩ := lookup_livingOutputs.1 hv
    obtain ⟨l, hl, hly⟩ := exists_incarnation_of_living hclosed.blue hp hy hya
    exact (mem_deleted.1 hpd).2.2 l hl (hly.id.symm.trans hyid)
  · intro hdeleted
    refine ⟨m.inputs, ?_, by rw [nodeFingerprint, hnm.plugin, hnm.image]⟩
    rw [← hinputs]
    refine Reference.resolve_mono (resolve_outputs_of_complete hclosed h hm hc hn hnm) fun e he r hr v hv => ?_
    obtain ⟨k, hk, hkid, hkc, hko⟩ := lookup_outputs.1 hv
    rcases incarnation_or_deletion hclosed.blue hp hk with ⟨l, hl, hlk⟩ | ⟨-, p, hpd, hpid⟩
    · exact lookup_livingOutputs.2 ⟨k, hk, hkid, ⟨hkc, hlk.action⟩, hko⟩
    · refine absurd ⟨p, hpd, ?_⟩ hdeleted
      rw [hpid, hkid]
      exact InfraNode.mem_referencedIds.2 ⟨e, he, r, hr, rfl⟩

end Groundwork.Plan
