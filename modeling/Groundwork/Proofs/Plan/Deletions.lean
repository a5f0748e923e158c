import Groundwork.Proofs.Plan.Retention
import Groundwork.Proofs.Plan.Validity
import Groundwork.Proofs.Run.Safety

/-!
# The order of deletions

A node that is deleted for the first time has to wait for everything that depended on it and is still around,
whether that is deleted too or lives on.  A deletion that was under way before goes on waiting for what it
waited for.  Nothing that lives on waits for a deletion.

Main statement: these are all edges that leave the deletions of a plan, no edge leads from a live node to a
deletion, and in every run of the plan a deletion is called only when all that it waits for is complete
(`deletions_ordered`).
-/

namespace Groundwork.Plan

open Infrastructure
open Run (Inv Move Point Reaches)

variable {now : Instant} {before after : Infrastructure} {m : InfraNode}

/-! ### Deletions and live nodes -/

/-- **What a plan deletes was there before**, and its id belongs to no live node. -/
theorem exists_deleted_of_mem_plan (hm : m ∈ (plan now before after).nodes) (ha : m.action = .delete) :
    ∃ p ∈ deleted before after, m = deletion p := by
  rcases mem_nodes_plan hm with hm | ⟨c, -, k, -, -, inputs, rfl⟩
  · rcases planned_or_deletion_of_mem_skeleton hm with ⟨n, -, rfl⟩ | hp
    · exact absurd ha (action_next_ne_delete before n)
    · exact hp
  · -- what was found unchanged is a no-op
    cases ha

/-- What a plan does not delete has the id of a live node. -/
theorem mem_ids_live_of_mem_plan (hm : m ∈ (plan now before after).nodes) (ha : m.action ≠ .delete) :
    m.id ∈ (live before after).ids := by
  rcases mem_nodes_plan hm with hm | ⟨c, hc, k, -, hid, inputs, rfl⟩
  · rcases planned_or_deletion_of_mem_skeleton hm with ⟨n, hn, rfl⟩ | ⟨p, -, rfl⟩
    · exact mem_ids_live.2 ⟨n, hn, rfl⟩
    · exact absurd rfl ha
  · obtain ⟨n, hn, hcn⟩ := List.mem_filterMap.1 hc
    exact mem_ids_live.2 ⟨n, hn, (state_next_of_candidate hcn).1.trans hid.symm⟩

/-- **No edge of a plan leads from a live node to a deletion.** -/
theorem action_target_ne_delete (hafter : after.validate = .ok ()) {e : Edge}
    (he : e ∈ (plan now before after).edges) {k : InfraNode} (hm : m ∈ (plan now before after).nodes)
    (hs : m.id = e.source) (ha : m.action ≠ .delete) (hk : k ∈ (plan now before after).nodes)
    (ht : k.id = e.target) : k.action ≠ .delete := by
  intro hdelete
  have hsource : e.source ∈ (live before after).ids := hs ▸ mem_ids_live_of_mem_plan hm ha
  obtain ⟨q, hq, rfl⟩ := exists_deleted_of_mem_plan hk hdelete
  rw [edges_plan, mem_edges_skeleton] at he
  rcases he with he | ⟨-, -, p, hp, he⟩
  · have htarget := (mem_ids_of_mem_edges_live hafter he).2
    rw [← ht] at htarget
    exact not_mem_ids_live hq htarget
  · rw [(mem_deletionEdges.1 he).1] at hsource
    exact not_mem_ids_live hp hsource

/-! ### What a deletion waits for -/

/-- Whether something that was there before stands in the way of a deletion: it depended on the node that is
deleted; or, if the node was being deleted already, its deletion waited for that. -/
def Hinders (before : Infrastructure) (p : InfraNode) (id : String) : Prop :=
  if p.action = .delete then (⟨p.id, id⟩ : Edge) ∈ before.edges else (⟨id, p.id⟩ : Edge) ∈ before.edges

instance (before : Infrastructure) (p : InfraNode) (id : String) : Decidable (Hinders before p id) :=
  inferInstanceAs (Decidable (if p.action = .delete then _ else _))

/-- **The edges that leave a deletion lead to what hinders it and is in the plan.** -/
theorem mem_edges_of_deletion (now : Instant) (hafter : after.validate = .ok ()) {p : InfraNode}
    (hp : p ∈ deleted before after) {id : String} :
    (⟨p.id, id⟩ : Edge) ∈ (plan now before after).edges ↔
      id ∈ (plan now before after).ids ∧ Hinders before p id := by
  have hdepends : (⟨p.id, id⟩ : Edge) ∈ (plan now before after).edges ↔
      (plan now before after).DependsOn p.id id := by
    refine ⟨fun he => Graph.mem_properEdges.2 ⟨he, mem_ids_of_mem_edges_plan hafter he⟩, fun h => ?_⟩
    exact (Graph.mem_properEdges.1 h).1
  rw [hdepends, dependsOn_plan_iff hafter]
  constructor
  · rintro (hlive | ⟨hid, q, hq, hqp, he⟩)
    · exact absurd (Graph.mem_properEdges.1 hlive).2.1 (not_mem_ids_live hp)
    · rw [Graph.eq_of_id_eq (mem_deleted.1 hq).1 (mem_deleted.1 hp).1 hqp] at he
      exact ⟨hid, he⟩
  · rintro ⟨hid, he⟩
    exact Or.inr ⟨hid, p, hp, rfl, he⟩

/-- **At the moment of its call all that hinders a deletion is complete.** -/
theorem complete_of_hinders (hafter : after.validate = .ok ()) {o : RunOptions} {x y : Point}
    (h : Reaches o (Point.start (plan now before after)) x) (hmove : Move o x y) {c : Call}
    (hc : c ∈ y.run.calls) (hnew : c ∉ x.run.calls) {p : InfraNode} (hp : p ∈ deleted before after)
    (hid : p.id = c.id) {id : String} (hmem : id ∈ (plan now before after).ids) (hh : Hinders before p id) :
    ∃ k ∈ x.run.graph.nodes, k.id = id ∧ k.isComplete = true := by
  have hedge := (mem_edges_of_deletion now hafter hp).2 ⟨hmem, hh⟩
  exact ((Inv.of_start h).safe.ordered y hmove c hc hnew).2 _ hedge hid

/-- **A plan deletes what was there before in the right order.**  Every deletion is that of a node of before, and
its edges lead to what hinders it: for a new one, all that depended on the node and is in the plan; for one under
way, all that it waited for and is in the plan.  No live node waits for a deletion.  And whatever the scheduler
and the plugins do in a run of the plan, each call for a deletion comes at a moment at which all this is
complete. -/
theorem deletions_ordered (now : Instant) (before : Infrastructure) (hafter : after.validate = .ok ()) :
    (∀ m ∈ (plan now before after).nodes, m.action = .delete → ∃ p ∈ before.nodes, m = deletion p ∧ ∀ id,
      ((⟨m.id, id⟩ : Edge) ∈ (plan now before after).edges ↔
        id ∈ (plan now before after).ids ∧ Hinders before p id)) ∧
    (∀ e ∈ (plan now before after).edges, ∀ m ∈ (plan now before after).nodes, m.id = e.source →
      m.action ≠ .delete → ∀ k ∈ (plan now before after).nodes, k.id = e.target → k.action ≠ .delete) ∧
    ∀ {σ : Type} (o : RunOptions) (scheduler : Run.Scheduler σ) (time : Instant) (s : σ),
      let r := (Run.execute o scheduler time (plan now before after) s).1
      ∀ c ∈ r.calls, c.action = .delete → ∃ p ∈ before.nodes, p.id = c.id ∧
        ∃ seen x y, Reaches o (Point.start (plan now before after)) x ∧ Move o x y ∧
          Reaches o y ⟨r, seen, []⟩ ∧ c ∉ x.run.calls ∧ c ∈ y.run.calls ∧
          ∀ id ∈ (plan now before after).ids, Hinders before p id →
            ∃ k ∈ x.run.graph.nodes, k.id = id ∧ k.isComplete = true := by
  refine ⟨fun m hm ha => ?_, fun e he m hm hs ha k hk ht => action_target_ne_delete hafter he hm hs ha hk ht, ?_⟩
  · obtain ⟨p, hp, rfl⟩ := exists_deleted_of_mem_plan hm ha
    exact ⟨p, (mem_deleted.1 hp).1, rfl, fun id => mem_edges_of_deletion now hafter hp⟩
  · intro σ o scheduler time s r c hc ha
    obtain ⟨seen, hreaches⟩ := Run.reaches_execute o scheduler time (plan now before after) s
    obtain ⟨m, hm, hid, hma, -⟩ := (Inv.of_start hreaches).called c hc
    obtain ⟨p, hp, rfl⟩ := exists_deleted_of_mem_plan hm (hma.trans ha)
    obtain ⟨x, y, hx, hxy, hy, hcy, hcx⟩ := Run.exists_move_of_call hreaches hc fun h => by cases h
    exact ⟨p, (mem_deleted.1 hp).1, hid, seen, x, y, hx, hxy, hy, hcx, hcy,
      fun id hmem hh => complete_of_hinders hafter hx hxy hcy hcx hp hid hmem hh⟩

/-- The application stays, so the cache that it was deployed from is deleted only when that is settled. -/
theorem deletions_ordered_interrupted :
    wanted.validate = .ok () ∧
      deletion (sample "cache" .create .complete) ∈ (plan Instant.epoch interrupted wanted).nodes ∧
      Hinders interrupted (sample "cache" .create .complete) "module/app@blue" ∧
      (⟨"module/cache@blue", "module/app@blue"⟩ : Edge) ∈ (plan Instant.epoch interrupted wanted).edges := by
  have hafter : wanted.validate = .ok () := by decide +kernel
  have hmem : deletion (sample "cache" .create .complete) ∈ (plan Instant.epoch interrupted wanted).nodes := by
    decide +kernel
  have hhinders : Hinders interrupted (sample "cache" .create .complete) "module/app@blue" := by decide +kernel
  obtain ⟨p, hp, hdeletion, hedges⟩ := (deletions_ordered Instant.epoch interrupted hafter).1 _ hmem rfl
  have hcache : sample "cache" .create .complete ∈ interrupted.nodes := by decide +kernel
  have hid : (sample "cache" .create .complete).id = p.id :=
    show (deletion _).id = (deletion p).id from congrArg InfraNode.id hdeletion
  have hsame : sample "cache" .create .complete = p := Graph.eq_of_id_eq hcache hp hid
  rw [← hsame] at hedges
  exact ⟨hafter, hmem, hhinders, (hedges _).2 ⟨by decide +kernel, hhinders⟩⟩

end Groundwork.Plan
