import Groundwork.Proofs.Plan.Retention
import Groundwork.Proofs.Plan.Search
import Groundwork.Proofs.Run.Inputs

/-!
# Planning again after a run

However far a run of a plan has come, its graph still holds one incarnation of every wanted node and else
only deletions.  So a second plan for the same target follows that incarnation, and what it does with it can
be read off the stage to which the run brought it.

Main statements: the incarnation of a wanted node is what the second plan follows (`previous?_eq_some`); it
is created again if its creation was not finished (`next_of_unfinished_create`) and updated in all other cases
(`next_of_kept`); if it is complete, it is a candidate for a no-op with what it has
(`candidate?_of_complete`).
-/

namespace Groundwork.Plan

open Infrastructure
open Run (Inv Point)

variable {now : Instant} {before after g : Infrastructure} {o : RunOptions} {q : Point} {n m : InfraNode}

/-! ### Incarnations after a run -/

theorem Incarnation.later (h : Incarnation before n m) {k : InfraNode} (hs : SameChange m k) :
    Incarnation before n k where
  key := hs.key.trans h.key
  id := hs.id.trans h.id
  image := hs.image.trans h.image
  plugin := hs.plugin.trans h.plugin
  action := by
    rw [hs.action]
    exact h.action

/-- **A run leaves incarnations of wanted nodes and deletions.** -/
theorem incarnation_or_deletion (hblue : ∀ n ∈ after.nodes, n.color = .blue)
    (hp : Inv o (plan now before after) q) (hm : m ∈ q.run.graph.nodes) :
    (∃ n ∈ after.nodes, Incarnation before n m) ∨
      (m.action = .delete ∧ ∃ p ∈ deleted before after, p.id = m.id) := by
  obtain ⟨j, hj, hs⟩ := hp.same m hm
  rcases live_or_deletion_of_mem_plan hblue hj with ⟨n, hn, hjn⟩ | ⟨p, hp, rfl⟩
  · exact Or.inl ⟨n, hn, hjn.toIncarnation.later hs⟩
  · exact Or.inr ⟨hs.action, p, hp, hs.id.symm⟩

theorem exists_incarnation_of_living (hblue : ∀ n ∈ after.nodes, n.color = .blue)
    (hp : Inv o (plan now before after) q) (hm : m ∈ q.run.graph.nodes) (ha : m.action ≠ .delete) :
    ∃ n ∈ after.nodes, Incarnation before n m :=
  (incarnation_or_deletion hblue hp hm).resolve_right fun h => ha h.1

/-- Every wanted node has an incarnation. -/
theorem exists_incarnation (hblue : ∀ n ∈ after.nodes, n.color = .blue)
    (hp : Inv o (plan now before after) q) (hn : n ∈ after.nodes) :
    ∃ m ∈ q.run.graph.nodes, Incarnation before n m := by
  have hid : (next before n).id ∈ q.run.graph.ids := by
    rw [hp.ids, ids_plan]
    exact mem_ids_skeleton.2 (Or.inl (mem_ids_live.2 ⟨n, hn, rfl⟩))
  obtain ⟨m, hm, hmid⟩ := Graph.mem_ids_iff.1 hid
  rcases incarnation_or_deletion hblue hp hm with ⟨k, hk, h⟩ | ⟨-, p, hp, hpid⟩
  · have hsame : k = n := eq_of_id_next_eq hblue hk hn (h.id.symm.trans hmid)
    subst hsame
    exact ⟨m, hm, h⟩
  · exact absurd (hpid.trans hmid).symm ((mem_deleted.1 hp).2.2 n hn)

/-- The incarnation of a wanted node is complete if what has its id is. -/
theorem exists_complete_incarnation (hblue : ∀ n ∈ after.nodes, n.color = .blue)
    (hp : Inv o (plan now before after) q) (hn : n ∈ after.nodes)
    (hc : isCompleteId q.run.graph (next before n).id = true) :
    ∃ m ∈ q.run.graph.nodes, Incarnation before n m ∧ m.isComplete = true := by
  obtain ⟨m, hm, hid, hmc⟩ := isCompleteId_iff.1 hc
  obtain ⟨l, hl, hnl⟩ := exists_incarnation hblue hp hn
  have hsame : l = m := Graph.eq_of_id_eq hl hm (hnl.id.trans hid.symm)
  subst hsame
  exact ⟨l, hl, hnl, hmc⟩

theorem Incarnation.isCompleteId (h : Incarnation before n m) (hm : m ∈ g.nodes) (hc : m.isComplete = true) :
    isCompleteId g (next before n).id = true := by
  rw [← h.id, isCompleteId_of_mem hm]
  exact hc

/-- A key of blue nodes belongs to one of them. -/
theorem eq_of_key_eq (hblue : ∀ n ∈ after.nodes, n.color = .blue) {k : InfraNode} (hn : n ∈ after.nodes)
    (hk : k ∈ after.nodes) (h : n.key = k.key) : n = k := by
  refine Graph.eq_of_id_eq hn hk (InfraNode.idOf_eq_idOf_iff.2 ⟨congrArg Key.id h, ?_⟩)
  rw [hblue n hn, hblue k hk]

/-- What lives on under the key of a wanted node is the incarnation of that node. -/
theorem incarnation_of_key_eq (hblue : ∀ n ∈ after.nodes, n.color = .blue)
    (hp : Inv o (plan now before after) q) (hm : m ∈ q.run.graph.nodes) (ha : m.action ≠ .delete)
    (hn : n ∈ after.nodes) (h : n.key = m.key) : Incarnation before n m := by
  obtain ⟨l, hl, hlm⟩ := exists_incarnation_of_living hblue hp hm ha
  have hsame : l = n := eq_of_key_eq hblue hl hn (hlm.key.symm.trans h.symm)
  subst hsame
  exact hlm

theorem oneLiving_of_inv (hblue : ∀ n ∈ after.nodes, n.color = .blue)
    (hp : Inv o (plan now before after) q) : OneLiving q.run.graph := by
  intro m hm k hk hkey hma hka
  obtain ⟨n, hn, hnm⟩ := exists_incarnation_of_living hblue hp hm hma
  obtain ⟨l, hl, hlk⟩ := exists_incarnation_of_living hblue hp hk hka
  have hsame : n = l := eq_of_key_eq hblue hn hl (hnm.key.symm.trans (hkey.trans hlk.key))
  subst hsame
  exact Graph.eq_of_id_eq hm hk (hnm.id.trans hlk.id.symm)

/-- **What a second plan follows is the incarnation that the first one made or kept.** -/
theorem previous?_eq_some (hblue : ∀ n ∈ after.nodes, n.color = .blue)
    (hp : Inv o (plan now before after) q) (hm : m ∈ q.run.graph.nodes) (h : Incarnation before n m) :
    previous? q.run.graph n.key = some m := by
  rw [← h.key]
  exact previous?_eq_some_of_living (oneLiving_of_inv hblue hp) hm h.action

/-- What a wanted node follows has its key. -/
theorem of_previous?_eq_some (h : previous? g n.key = some m) : m ∈ g.nodes ∧ m.key = n.key := by
  have hmem : m ∈ g.nodes.filter (·.key = n.key) := by
    rcases Option.or_eq_some_iff.1 h with hfind | ⟨-, hhead⟩
    · exact List.mem_of_find?_eq_some hfind
    · exact List.mem_of_head? hhead
  obtain ⟨hm, hkey⟩ := List.mem_filter.1 hmem
  exact ⟨hm, of_decide_eq_true hkey⟩

/-! ### What becomes of an incarnation -/

theorem mustRecreate_eq_false_iff :
    mustRecreate m = false ↔ m.action ≠ .delete ∧ (m.action = .create → m.isComplete = true) := by
  unfold mustRecreate
  cases m.action <;> simp

/-- A wanted node that follows a node without replacing it is an update of it. -/
theorem next_of_kept (h : previous? g n.key = some m) (hkey : m.key = n.key) (hkeep : mustRecreate m = false) :
    (next g n).id = m.id ∧ (next g n).action = .update ∧ (next g n).state = m.state := by
  rw [next_eq_of_kept h hkeep]
  refine ⟨?_, rfl, rfl⟩
  show InfraNode.idOf n.key m.color = InfraNode.idOf m.key m.color
  rw [hkey]

/-- **An unfinished creation is planned again.** -/
theorem next_of_unfinished_create (h : previous? g n.key = some m) (ha : m.action = .create)
    (hc : m.isComplete = false) : (next g n).action = .create ∧ (next g n).state = m.state := by
  have hre : mustRecreate m = true := by
    rw [mustRecreate, ha, hc]
    rfl
  rw [next_eq_of_recreated h hre]
  exact ⟨rfl, if_pos ha⟩

/-- **A complete node is a candidate for a no-op** with the outputs and the state that it has. -/
theorem candidate?_of_complete (h : previous? g n.key = some m) (hkey : m.key = n.key)
    (ha : m.action ≠ .delete) (hc : m.isComplete = true) :
    candidate? g n = some ⟨m.id, nodeFingerprint m, m.outputs, m.state⟩ := by
  have hkeep : mustRecreate m = false := mustRecreate_eq_false_iff.2 ⟨ha, fun _ => hc⟩
  refine candidate?_eq_some_iff.2 ⟨m, h, hkeep, hc, ?_⟩
  rw [(next_of_kept h hkey hkeep).1]

/-- **A complete incarnation stays the one of its node.** -/
theorem id_next_of_complete (hblue : ∀ n ∈ after.nodes, n.color = .blue)
    (hp : Inv o (plan now before after) q) (hm : m ∈ q.run.graph.nodes) (hc : m.isComplete = true)
    (h : Incarnation before n m) : (next q.run.graph n).id = m.id :=
  (next_of_kept (previous?_eq_some hblue hp hm h) h.key
    (mustRecreate_eq_false_iff.2 ⟨h.action, fun _ => hc⟩)).1

/-- A wanted node whose incarnation is complete keeps its name. -/
theorem id_next_of_isCompleteId (hblue : ∀ n ∈ after.nodes, n.color = .blue)
    (hp : Inv o (plan now before after) q) (hn : n ∈ after.nodes)
    (hc : isCompleteId q.run.graph (next before n).id = true) :
    (next q.run.graph n).id = (next before n).id := by
  obtain ⟨m, hm, hnm, hmc⟩ := exists_complete_incarnation hblue hp hn hc
  rw [id_next_of_complete hblue hp hm hmc hnm, hnm.id]

/-- What is no candidate is in the plan as it was before the search. -/
theorem planned_mem_plan (now : Instant) (hblue : ∀ n ∈ after.nodes, n.color = .blue) (hn : n ∈ after.nodes)
    (hc : candidate? before n = none) : planned before after n ∈ (plan now before after).nodes := by
  obtain ⟨k, hk, hs⟩ := exists_standsFor now hblue hn
  rcases mem_nodes_plan hk with hk' | ⟨c, hc', l, hl, hid, inputs, rfl⟩
  · rw [← eq_planned hblue hk' hn hs.id]
    exact hk
  · obtain ⟨j, hj, hcj, rfl⟩ := exists_of_candidate hblue hc' hl hid
    have hsame : j = n := eq_of_id_next_eq hblue hj hn hs.id
    rw [hsame, hc] at hcj
    cases hcj

/-- Only complete nodes are candidates. -/
theorem candidate?_of_unfinished (h : previous? g n.key = some m) (hc : m.isComplete = false) :
    candidate? g n = none := by
  unfold candidate?
  rw [h]
  dsimp only
  rw [hc, Bool.and_false]
  rfl

end Groundwork.Plan
