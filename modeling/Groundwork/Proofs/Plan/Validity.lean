import Groundwork.Proofs.Graph.Order
import Groundwork.Proofs.Plan.Contents

/-!
# When a plan can be carried out

A plan brings together edges of three kinds: those of live nodes under new names, those that deletions under
way waited for already, and those of the nodes dependent on what is deleted for the first time.  The nodes
of a plan form three layers.  Live nodes wait for live nodes only.  A deletion waits for live nodes and for
deletions of its own kind, along edges of the graph that was applied last; and a new deletion waits for
deletions under way as well.  So a cycle would have to stay in one layer, unless a deletion under way waits
for a new one.

Main statements: between valid graphs a plan is valid exactly if its live nodes form a valid graph and no
deletion under way waits for a new one (`validate_plan_iff`), and the live nodes of a target of blue nodes
always do (`validate_live_of_blue`).
-/

namespace Groundwork.Plan

open Relation
open Infrastructure

variable {now : Instant} {before after : Infrastructure}

/-! ### Layers -/

/-- **A relation that never climbs has no cycle if no layer has one.** -/
theorem not_transGen_of_layers {α : Type} {r : α → α → Prop} (layer : α → Nat)
    (hdown : ∀ a b, r a b → layer b ≤ layer a)
    (hlayer : ∀ k a, ¬ TransGen (fun a b => r a b ∧ layer a = k ∧ layer b = k) a a) (a : α) :
    ¬ TransGen r a a := by
  -- a path that ends on the layer where it starts never leaves it
  have key : ∀ a b, TransGen r a b → layer b ≤ layer a ∧
      (layer b = layer a → TransGen (fun x y => r x y ∧ layer x = layer a ∧ layer y = layer a) a b) := by
    intro a b hab
    induction hab with
    | single h => exact ⟨hdown _ _ h, fun e => TransGen.single ⟨h, rfl, e⟩⟩
    | tail _ h ih =>
      have hstep := hdown _ _ h
      refine ⟨hstep.trans ih.1, fun e => ?_⟩
      have hmid := le_antisymm ih.1 (e ▸ hstep)
      exact (ih.2 hmid).tail ⟨h, hmid, e⟩
  intro h
  exact hlayer (layer a) a ((key a a h).2 rfl)

/-! ### Live nodes -/

theorem mem_ids_of_mem_edges_live (hafter : after.validate = .ok ()) {e : Edge}
    (he : e ∈ (live before after).edges) :
    e.source ∈ (live before after).ids ∧ e.target ∈ (live before after).ids := by
  obtain ⟨-, x, hx, rfl⟩ := mem_edges_live.1 he
  have hends := ((Graph.validate_eq_ok_iff after).1 hafter).1 x hx
  have hname : ∀ id, id ∈ after.ids → newName (newIds before after) id ∈ (live before after).ids := by
    intro id hid
    obtain ⟨n, hn, rfl⟩ := Graph.mem_ids_iff.1 hid
    exact mem_ids_live.2 ⟨n, hn, (newName_newIds hn).symm⟩
  exact ⟨hname _ hends.1, hname _ hends.2⟩

/-- **The live nodes of a target of blue nodes form a valid graph.**  For no two of them get one id, so a
cycle of new names comes from a cycle of old ones. -/
theorem validate_live_of_blue (hafter : after.validate = .ok ())
    (hblue : ∀ n ∈ after.nodes, n.color = .blue) : (live before after).validate = .ok () := by
  obtain ⟨hends, hacyclic⟩ := (Graph.validate_eq_ok_iff after).1 hafter
  have hback : ∀ a b, TransGen (live before after).DependsOn a b → ∀ n ∈ after.nodes,
      (next before n).id = a → ∃ m ∈ after.nodes, (next before m).id = b ∧
        TransGen after.DependsOn n.id m.id := by
    have hedge : ∀ a b, (live before after).DependsOn a b → ∀ n ∈ after.nodes,
        (next before n).id = a → ∃ m ∈ after.nodes, (next before m).id = b ∧ after.DependsOn n.id m.id := by
      intro a b hab n hn hna
      obtain ⟨-, x, hx, he⟩ := mem_edges_live.1 (Graph.mem_properEdges.1 hab).1
      obtain ⟨hs, ht⟩ := hends x hx
      obtain ⟨s, hsn, hsid⟩ := Graph.mem_ids_iff.1 hs
      obtain ⟨t, htn, htid⟩ := Graph.mem_ids_iff.1 ht
      have ha : (next before s).id = a := by
        rw [← newName_newIds hsn, show s.id = x.source from hsid]
        exact (congrArg Edge.source he).symm
      have hb : (next before t).id = b := by
        rw [← newName_newIds htn, show t.id = x.target from htid]
        exact (congrArg Edge.target he).symm
      have hns : n = s := eq_of_id_next_eq hblue hn hsn (hna.trans ha.symm)
      refine ⟨t, htn, hb, (Graph.dependsOn_iff_of_validate hafter).2 ?_⟩
      have hx' : (⟨n.id, t.id⟩ : Edge) = x := by
        rw [hns, show s.id = x.source from hsid, show t.id = x.target from htid]
      rw [hx']
      exact hx
    intro a b hab
    induction hab with
    | single h =>
      intro n hn hna
      obtain ⟨m, hm, hmb, hdep⟩ := hedge _ _ h n hn hna
      exact ⟨m, hm, hmb, TransGen.single hdep⟩
    | tail _ h ih =>
      intro n hn hna
      obtain ⟨m, hm, hmb, hpath⟩ := ih n hn hna
      obtain ⟨t, ht, htc, hdep⟩ := hedge _ _ h m hm hmb
      exact ⟨t, ht, htc, hpath.tail hdep⟩
  refine (Graph.validate_eq_ok_iff _).2 ⟨fun e he => mem_ids_of_mem_edges_live hafter he, ?_⟩
  intro id hcycle
  obtain ⟨c, hc, -⟩ := TransGen.head'_iff.1 hcycle
  obtain ⟨n, hn, hid⟩ := mem_ids_live.1 (Graph.mem_properEdges.1 hc).2.1
  obtain ⟨m, hm, hmid, hpath⟩ := hback id id hcycle n hn hid
  have hmn : m = n := eq_of_id_next_eq hblue hm hn (hmid.trans hid.symm)
  rw [hmn] at hpath
  exact hacyclic _ hpath

/-! ### Deletions -/

/-- Whether, along an edge of the graph that was applied last, a deletion under way waits for a node that is
now deleted for the first time. -/
def Clashes (before after : Infrastructure) (e : Edge) : Prop :=
  (∃ p ∈ deleted before after, p.id = e.source ∧ p.action = .delete) ∧
    ∃ q ∈ deleted before after, q.id = e.target ∧ q.action ≠ .delete

instance : DecidablePred (Clashes before after) := fun _ => inferInstanceAs (Decidable (_ ∧ _))

/-- The layer of an id in a plan: live nodes, deletions under way and new deletions, from the bottom up. -/
def layer (before after : Infrastructure) (id : String) : Nat :=
  if id ∈ (live before after).ids then 0
  else if ∃ p ∈ deleted before after, p.id = id ∧ p.action = .delete then 1 else 2

theorem layer_live {id : String} (h : id ∈ (live before after).ids) : layer before after id = 0 :=
  if_pos h

theorem not_mem_ids_live {p : InfraNode} (hp : p ∈ deleted before after) :
    p.id ∉ (live before after).ids := by
  intro h
  obtain ⟨n, hn, hid⟩ := mem_ids_live.1 h
  exact (mem_deleted.1 hp).2.2 n hn hid

theorem layer_deletion {p : InfraNode} (hp : p ∈ deleted before after) :
    layer before after p.id = if p.action = .delete then 1 else 2 := by
  have hiff : (∃ q ∈ deleted before after, q.id = p.id ∧ q.action = .delete) ↔ p.action = .delete := by
    constructor
    · rintro ⟨q, hq, hid, ha⟩
      rwa [← Graph.eq_of_id_eq (mem_deleted.1 hq).1 (mem_deleted.1 hp).1 hid]
    · exact fun ha => ⟨p, hp, rfl, ha⟩
  rw [layer, if_neg (not_mem_ids_live hp)]
  simp only [hiff]

theorem mem_ids_plan {id : String} :
    id ∈ (plan now before after).ids ↔
      id ∈ (live before after).ids ∨ ∃ p ∈ deleted before after, p.id = id := by
  rw [ids_plan, mem_ids_skeleton]

/-- What waits in a plan is a live node or a deletion. -/
theorem dependsOn_plan_iff (hafter : after.validate = .ok ()) {a b : String} :
    (plan now before after).DependsOn a b ↔ (live before after).DependsOn a b ∨
      (b ∈ (plan now before after).ids ∧ ∃ p ∈ deleted before after, p.id = a ∧
        if p.action = .delete then (⟨a, b⟩ : Edge) ∈ before.edges else (⟨b, a⟩ : Edge) ∈ before.edges) := by
  rw [Graph.DependsOn, Graph.mem_properEdges, edges_plan, mem_edges_skeleton]
  constructor
  · rintro ⟨he | ⟨-, -, p, hp, he⟩, -, hb⟩
    · exact Or.inl (Graph.mem_properEdges.2 ⟨he, mem_ids_of_mem_edges_live hafter he⟩)
    · obtain ⟨ha, he⟩ := mem_deletionEdges.1 he
      exact Or.inr ⟨hb, p, hp, ha.symm, he⟩
  · rintro (h | ⟨hb, p, hp, rfl, he⟩)
    · obtain ⟨he, ha, hb⟩ := Graph.mem_properEdges.1 h
      exact ⟨Or.inl he, mem_ids_plan.2 (Or.inl ha), mem_ids_plan.2 (Or.inl hb)⟩
    · have hb' := hb
      rw [ids_plan] at hb'
      refine ⟨Or.inr ⟨?_, hb', p, hp, mem_deletionEdges.2 ⟨rfl, he⟩⟩, mem_ids_plan.2 (Or.inr ⟨p, hp, rfl⟩), hb⟩
      -- no edge of the graph that was applied last is a loop, in either direction
      split at he
      · exact before.edges_proper _ he
      · have hloop := before.edges_proper _ he
        simpa [Edge.isLoop, eq_comm] using hloop

/-- No edge of a plan dangles. -/
theorem mem_ids_of_mem_edges_plan (hafter : after.validate = .ok ()) {e : Edge}
    (he : e ∈ (plan now before after).edges) :
    e.source ∈ (plan now before after).ids ∧ e.target ∈ (plan now before after).ids := by
  rw [edges_plan, mem_edges_skeleton] at he
  rcases he with he | ⟨-, ht, p, hp, he⟩
  · obtain ⟨hs, ht⟩ := mem_ids_of_mem_edges_live hafter he
    exact ⟨mem_ids_plan.2 (Or.inl hs), mem_ids_plan.2 (Or.inl ht)⟩
  · rw [(mem_deletionEdges.1 he).1, ids_plan now]
    exact ⟨mem_ids_skeleton.2 (Or.inr ⟨p, hp, rfl⟩), ht⟩

/-- The layer of what is deleted tells whether its deletion was under way. -/
theorem layer_eq_two_iff {id : String} (h : id ∈ (plan now before after).ids) :
    layer before after id = 2 ↔ ∃ q ∈ deleted before after, q.id = id ∧ q.action ≠ .delete := by
  rcases mem_ids_plan.1 h with hlive | ⟨p, hp, rfl⟩
  · rw [layer_live hlive]
    constructor
    · intro h
      cases h
    · rintro ⟨q, hq, rfl, -⟩
      exact absurd hlive (not_mem_ids_live hq)
  · rw [layer_deletion hp]
    constructor
    · intro h
      refine ⟨p, hp, rfl, fun ha => ?_⟩
      rw [if_pos ha] at h
      cases h
    · rintro ⟨q, hq, hid, ha⟩
      rw [Graph.eq_of_id_eq (mem_deleted.1 hq).1 (mem_deleted.1 hp).1 hid] at ha
      rw [if_neg ha]

theorem layer_le_two (before after : Infrastructure) (id : String) : layer before after id ≤ 2 := by
  unfold layer
  split_ifs <;> omega

/-- Without clashes nothing in a plan waits for a higher layer. -/
theorem layer_le_of_dependsOn (hafter : after.validate = .ok ())
    (hclash : ∀ e ∈ before.edges, ¬ Clashes before after e) {a b : String}
    (h : (plan now before after).DependsOn a b) : layer before after b ≤ layer before after a := by
  rcases (dependsOn_plan_iff hafter).1 h with h | ⟨hb, p, hp, rfl, he⟩
  · rw [layer_live (Graph.mem_properEdges.1 h).2.2]
    exact Nat.zero_le _
  · rw [layer_deletion hp]
    split
    · rename_i ha
      rw [if_pos ha] at he
      have hne : layer before after b ≠ 2 := fun h2 =>
        hclash _ he ⟨⟨p, hp, rfl, ha⟩, (layer_eq_two_iff hb).1 h2⟩
      have hle := layer_le_two before after b
      omega
    · exact layer_le_two before after b

/-- What waits in the lowest layer is live, and what waits in another one does so along an edge of the graph
that was applied last, or against one. -/
theorem dependsOn_of_layer (hafter : after.validate = .ok ()) {a b : String}
    (h : (plan now before after).DependsOn a b) :
    (layer before after a = 0 → (live before after).DependsOn a b) ∧
      (layer before after a = 1 → (⟨a, b⟩ : Edge) ∈ before.edges) ∧
      (layer before after a = 2 → (⟨b, a⟩ : Edge) ∈ before.edges) := by
  rcases (dependsOn_plan_iff hafter).1 h with h | ⟨-, p, hp, rfl, he⟩
  · rw [layer_live (Graph.mem_properEdges.1 h).2.1]
    exact ⟨fun _ => h, fun e => absurd e (by decide), fun e => absurd e (by decide)⟩
  · rw [layer_deletion hp]
    by_cases ha : p.action = .delete
    · rw [if_pos ha] at he ⊢
      exact ⟨fun e => absurd e (by decide), fun _ => he, fun e => absurd e (by decide)⟩
    · rw [if_neg ha] at he ⊢
      exact ⟨fun e => absurd e (by decide), fun e => absurd e (by decide), fun _ => he⟩

/-! ### Validity -/

/-- Between valid graphs, live nodes without a cycle and no clash make a plan without a cycle. -/
theorem acyclic_plan (hbefore : before.validate = .ok ()) (hafter : after.validate = .ok ())
    (hlive : (live before after).Acyclic) (hclash : ∀ e ∈ before.edges, ¬ Clashes before after e) :
    (plan now before after).Acyclic := by
  have hacyclic := ((Graph.validate_eq_ok_iff before).1 hbefore).2
  refine not_transGen_of_layers (layer before after)
    (fun a b => layer_le_of_dependsOn hafter hclash) fun k a hcycle => ?_
  obtain ⟨c, ⟨-, hk, -⟩, -⟩ := TransGen.head'_iff.1 hcycle
  have hle := layer_le_two before after a
  obtain rfl | rfl | rfl : k = 0 ∨ k = 1 ∨ k = 2 := by omega
  · refine hlive a (TransGen.mono ?_ a a hcycle)
    rintro x y ⟨h, hx, -⟩
    exact (dependsOn_of_layer hafter h).1 hx
  · refine hacyclic a (TransGen.mono ?_ a a hcycle)
    rintro x y ⟨h, hx, -⟩
    exact (Graph.dependsOn_iff_of_validate hbefore).2 ((dependsOn_of_layer hafter h).2.1 hx)
  · -- new deletions wait against the edges they had, so the cycle runs backwards
    have hback : TransGen (Function.swap before.DependsOn) a a := by
      refine TransGen.mono ?_ a a hcycle
      rintro x y ⟨h, hx, -⟩
      exact (Graph.dependsOn_iff_of_validate hbefore).2 ((dependsOn_of_layer hafter h).2.2 hx)
    exact hacyclic a (transGen_swap.1 hback)

/-- A deletion under way that waits for a new one is waited for by it in turn. -/
theorem not_acyclic_of_clash (hafter : after.validate = .ok ()) {e : Edge} (he : e ∈ before.edges)
    (h : Clashes before after e) : ¬ (plan now before after).Acyclic := by
  obtain ⟨⟨p, hp, hps, hpa⟩, q, hq, hqt, hqa⟩ := h
  have hthere : (plan now before after).DependsOn e.source e.target := by
    refine (dependsOn_plan_iff hafter).2 (Or.inr ⟨mem_ids_plan.2 (Or.inr ⟨q, hq, hqt⟩), p, hp, hps, ?_⟩)
    rw [if_pos hpa]
    exact he
  have hback : (plan now before after).DependsOn e.target e.source := by
    refine (dependsOn_plan_iff hafter).2 (Or.inr ⟨mem_ids_plan.2 (Or.inr ⟨p, hp, hps⟩), q, hq, hqt, ?_⟩)
    rw [if_neg hqa]
    exact he
  intro hacyclic
  exact hacyclic e.source ((TransGen.single hthere).tail hback)

/-- **Between valid graphs a plan is valid exactly if its live nodes form a valid graph and no deletion under
way waits for a new one.**  The former always holds for a target of blue nodes. -/
theorem validate_plan_iff (now : Instant) (hbefore : before.validate = .ok ())
    (hafter : after.validate = .ok ()) :
    ((plan now before after).validate = .ok () ↔
        (live before after).validate = .ok () ∧ ∀ e ∈ before.edges, ¬ Clashes before after e) ∧
      ((∀ n ∈ after.nodes, n.color = .blue) → (live before after).validate = .ok ()) := by
  refine ⟨?_, validate_live_of_blue hafter⟩
  constructor
  · intro h
    have hacyclic := ((Graph.validate_eq_ok_iff _).1 h).2
    refine ⟨(Graph.validate_eq_ok_iff _).2 ⟨fun e he => mem_ids_of_mem_edges_live hafter he, ?_⟩, ?_⟩
    · intro id hcycle
      exact hacyclic id (TransGen.mono (fun a b hab => (dependsOn_plan_iff hafter).2 (Or.inl hab)) id id hcycle)
    · intro e he hclash
      exact not_acyclic_of_clash hafter he hclash hacyclic
  · rintro ⟨hlive, hclash⟩
    refine (Graph.validate_eq_ok_iff _).2 ⟨fun e he => mem_ids_of_mem_edges_plan hafter he, ?_⟩
    exact acyclic_plan hbefore hafter ((Graph.validate_eq_ok_iff _).1 hlive).2 hclash


/-- A database whose deletion has failed after it waited for its application, which was deployed from a
cache. -/
def interrupted : Infrastructure :=
  Graph.ofParts [sample "db" .delete .error, sample "app" .update .complete, sample "cache" .create .complete]
    [⟨"module/db@blue", "module/app@blue"⟩, ⟨"module/app@blue", "module/cache@blue"⟩]

/-- The application alone. -/
def wanted : Infrastructure := Graph.ofParts [sample "app" .create .pending] []

/-- While the application stays, the cache can be deleted beside the database. -/
theorem validate_plan_interrupted :
    interrupted.validate = .ok () ∧ wanted.validate = .ok () ∧
      (plan Instant.epoch interrupted wanted).validate = .ok () := by
  have hbefore : interrupted.validate = .ok () := by decide +kernel
  have hafter : wanted.validate = .ok () := by decide +kernel
  have hplan := validate_plan_iff Instant.epoch hbefore hafter
  exact ⟨hbefore, hafter, hplan.1.2 ⟨hplan.2 (by decide +kernel), by decide +kernel⟩⟩

/-- **A deletion that has failed and a new one can wait for each other.**  If the application is not wanted
any more either, the database goes on waiting for it, and it now waits for the database. -/
theorem validate_plan_interrupted_empty_ne :
    interrupted.validate = .ok () ∧ (Graph.empty : Infrastructure).validate = .ok () ∧
      (⟨"module/db@blue", "module/app@blue"⟩ : Edge) ∈ (plan Instant.epoch interrupted Graph.empty).edges ∧
      (⟨"module/app@blue", "module/db@blue"⟩ : Edge) ∈ (plan Instant.epoch interrupted Graph.empty).edges ∧
      (plan Instant.epoch interrupted Graph.empty).validate ≠ .ok () := by
  decide +kernel

end Groundwork.Plan
