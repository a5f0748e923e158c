import Groundwork.Proofs.Plan.Contents

/-!
# What a plan forgets

A plan should forget no resource: what lives on keeps its state, and the rest is deleted.  The color of a
node that comes new is chosen by the first living incarnation of its key, or by the first of all if none
lives; so it may be the color of another incarnation that still has to be deleted.  Then both have one id,
and the deletion is left out.

Main statements: the nodes of a plan are what wanted nodes become, with the state chosen for them, and the
deletions (`live_or_deletion_of_mem_plan`); a node is accounted for in the plan unless it has to be deleted
and a wanted node gets its id (`accounted_iff`).
-/

namespace Groundwork.Plan

open Infrastructure

variable {now : Instant} {before after : Infrastructure}

/-! ### Nodes of a plan -/

/-- A node that is the incarnation of a wanted one, at some stage. -/
structure Incarnation (before : Infrastructure) (n m : InfraNode) : Prop where
  key : m.key = n.key
  id : m.id = (next before n).id
  image : m.image = n.image
  plugin : m.plugin = n.plugin
  action : m.action ≠ .delete

/-- A node that stands in a plan for a wanted one. -/
structure StandsFor (before : Infrastructure) (n m : InfraNode) : Prop extends Incarnation before n m where
  state : m.state = (next before n).state

theorem action_next_ne_delete (before : Infrastructure) (n : InfraNode) :
    (next before n).action ≠ .delete := by
  rcases action_next_eq_or before n with h | h <;> rw [h] <;> exact nofun

/-- A candidate has the state that its wanted node gets. -/
theorem state_next_of_candidate {n : InfraNode} {c : Candidate} (h : candidate? before n = some c) :
    (next before n).id = c.id ∧ (next before n).state = c.state := by
  obtain ⟨prev, hprev, hkeep, -, rfl⟩ := candidate?_eq_some_iff.1 h
  exact ⟨rfl, by rw [next_eq_of_kept hprev hkeep]⟩

/-- **A node of a plan stands for a wanted node, or it is a deletion.** -/
theorem live_or_deletion_of_mem_plan (hblue : ∀ n ∈ after.nodes, n.color = .blue) {m : InfraNode}
    (h : m ∈ (plan now before after).nodes) :
    (∃ n ∈ after.nodes, StandsFor before n m) ∨ ∃ p ∈ deleted before after, m = deletion p := by
  have hskeleton : ∀ k ∈ (skeleton before after).nodes,
      (∃ n ∈ after.nodes, StandsFor before n k) ∨ ∃ p ∈ deleted before after, k = deletion p := by
    intro k hk
    rcases planned_or_deletion_of_mem_skeleton hk with ⟨n, hn, rfl⟩ | hp
    · exact Or.inl ⟨n, hn, ⟨key_next before n, rfl, image_next before n, plugin_next before n,
        action_next_ne_delete before n⟩, rfl⟩
    · exact Or.inr hp
  rcases mem_nodes_plan h with h | ⟨c, hc, k, hk, hid, inputs, rfl⟩
  · exact hskeleton m h
  · obtain ⟨n, hn, hcn⟩ := List.mem_filterMap.1 hc
    obtain ⟨hcid, hcstate⟩ := state_next_of_candidate hcn
    rcases hskeleton k hk with ⟨n', hn', hs⟩ | ⟨p, hp, rfl⟩
    · have hsame : n' = n := eq_of_id_next_eq hblue hn' hn (hs.id.symm.trans (hid.trans hcid.symm))
      subst hsame
      exact Or.inl ⟨n', hn, ⟨hs.key, hs.id, hs.image, hs.plugin, fun e => by cases e⟩, hcstate.symm⟩
    · -- no deletion has the id of a live node
      exact absurd (hcid.trans hid.symm) ((mem_deleted.1 hp).2.2 n hn)

/-- Every wanted node has its place in the plan. -/
theorem exists_standsFor (now : Instant) (hblue : ∀ n ∈ after.nodes, n.color = .blue) {n : InfraNode}
    (hn : n ∈ after.nodes) : ∃ m ∈ (plan now before after).nodes, StandsFor before n m := by
  have hid : (next before n).id ∈ (plan now before after).ids := by
    rw [ids_plan]
    exact mem_ids_skeleton.2 (Or.inl (mem_ids_live.2 ⟨n, hn, rfl⟩))
  obtain ⟨m, hm, hmid⟩ := Graph.mem_ids_iff.1 hid
  rcases live_or_deletion_of_mem_plan hblue hm with ⟨n', hn', hs⟩ | ⟨p, hp, rfl⟩
  · have hsame : n' = n := eq_of_id_next_eq hblue hn' hn (hs.id.symm.trans hmid)
    subst hsame
    exact ⟨m, hm, hs⟩
  · exact absurd hmid.symm ((mem_deleted.1 hp).2.2 n hn)

/-- Every deletion is in the plan. -/
theorem deletion_mem_plan (now : Instant) (hblue : ∀ n ∈ after.nodes, n.color = .blue) {p : InfraNode}
    (hp : p ∈ deleted before after) : deletion p ∈ (plan now before after).nodes := by
  have hid : p.id ∈ (plan now before after).ids := by
    rw [ids_plan]
    exact mem_ids_skeleton.2 (Or.inr ⟨p, hp, rfl⟩)
  obtain ⟨m, hm, hmid⟩ := Graph.mem_ids_iff.1 hid
  rcases live_or_deletion_of_mem_plan hblue hm with ⟨n, hn, hs⟩ | ⟨q, hq, rfl⟩
  · exact absurd (hs.id.symm.trans hmid) ((mem_deleted.1 hp).2.2 n hn)
  · have hsame : q = p := Graph.eq_of_id_eq (mem_deleted.1 hq).1 (mem_deleted.1 hp).1 hmid
    rw [← hsame]
    exact hm

/-! ### What is accounted for -/

/-- At most one incarnation of a key is not being deleted. -/
def OneLiving (before : Infrastructure) : Prop :=
  ∀ p ∈ before.nodes, ∀ q ∈ before.nodes, p.key = q.key → p.action ≠ .delete → q.action ≠ .delete → p = q

instance (before : Infrastructure) : Decidable (OneLiving before) :=
  inferInstanceAs (Decidable (∀ p ∈ before.nodes, ∀ q ∈ before.nodes, _ → _ → _ → _))

/-- Whether a plan accounts for a node: the node is not being deleted, its key is wanted and what lives under
the key goes on from its state; or the plan deletes what has its id, inputs and state. -/
def Accounted (planned after : Infrastructure) (p : InfraNode) : Prop :=
  (p.action ≠ .delete ∧ (∃ n ∈ after.nodes, n.key = p.key) ∧
      ∃ m ∈ planned.nodes, m.key = p.key ∧ m.action ≠ .delete ∧ m.state = p.state) ∨
    ∃ m ∈ planned.nodes, m.id = p.id ∧ m.action = .delete ∧ m.inputs = p.inputs ∧ m.state = p.state

instance (planned after : Infrastructure) (p : InfraNode) : Decidable (Accounted planned after p) :=
  inferInstanceAs (Decidable (_ ∨ _))

/-- The living incarnation of a key is what its wanted node follows. -/
theorem previous?_eq_some_of_living (hone : OneLiving before) {p : InfraNode} (hp : p ∈ before.nodes)
    (ha : p.action ≠ .delete) : previous? before p.key = some p := by
  have hfind : (before.nodes.filter (·.key = p.key)).find? (·.action ≠ .delete) = some p := by
    cases h : (before.nodes.filter (·.key = p.key)).find? (·.action ≠ .delete) with
    | none =>
      have hmem : p ∈ before.nodes.filter (·.key = p.key) := List.mem_filter.2 ⟨hp, decide_eq_true rfl⟩
      exact absurd (decide_eq_true ha) (List.find?_eq_none.1 h p hmem)
    | some q =>
      obtain ⟨hq, hk⟩ := List.mem_filter.1 (List.mem_of_find?_eq_some h)
      have hqa := List.find?_some h
      rw [hone q hq p hp (of_decide_eq_true hk) (of_decide_eq_true hqa) ha]
  rw [previous?, hfind, Option.some_or]

/-- What follows a living incarnation goes on from its state. -/
theorem state_next_of_living {n p : InfraNode} (h : previous? before n.key = some p)
    (ha : p.action ≠ .delete) : (next before n).state = p.state := by
  cases hre : mustRecreate p with
  | true =>
    have hcreate : p.action = .create := by
      simp only [mustRecreate, Bool.or_eq_true, Bool.and_eq_true, decide_eq_true_eq, ha, false_or] at hre
      exact hre.1
    rw [next_eq_of_recreated h hre]
    exact if_pos hcreate
  | false => rw [next_eq_of_kept h hre]

theorem isDoomed_iff {p : InfraNode} :
    isDoomed after p = true ↔ (p.action = .delete ∧ p.isComplete = false) ∨
      (p.action ≠ .delete ∧ (∀ n ∈ after.nodes, n.key ≠ p.key) ∧
        ¬ (p.action = .create ∧ p.status.phase = .pending)) := by
  unfold isDoomed
  dsimp only
  split
  · rename_i h
    simp [h]
  · rename_i h
    simp [h, imp_iff_not_or]

/-- **A plan accounts for a node unless the node has to be deleted and a wanted node gets its id.**  Completed
deletions and creations that never began are no resources. -/
theorem accounted_iff (now : Instant) (hone : OneLiving before) (hblue : ∀ n ∈ after.nodes, n.color = .blue)
    {p : InfraNode} (hp : p ∈ before.nodes) (hdelete : ¬ (p.action = .delete ∧ p.isComplete = true))
    (hcreate : ¬ (p.action = .create ∧ p.status.phase = .pending)) :
    Accounted (plan now before after) after p ↔
      ¬ (isDoomed after p = true ∧ ∃ n ∈ after.nodes, (next before n).id = p.id) := by
  constructor
  · rintro haccounted ⟨hdoomed, n, hn, hid⟩
    rcases haccounted with ⟨ha, ⟨k, hk, hkey⟩, -⟩ | ⟨m, hm, hmid, hma, -⟩
    · rcases isDoomed_iff.1 hdoomed with ⟨h, -⟩ | ⟨-, hunwanted, -⟩
      · exact ha h
      · exact hunwanted k hk hkey
    · rcases live_or_deletion_of_mem_plan hblue hm with ⟨k, hk, hs⟩ | ⟨q, hq, rfl⟩
      · exact hs.action hma
      · exact (mem_deleted.1 hq).2.2 n hn (hid.trans hmid.symm)
  · intro hfree
    by_cases hdoomed : isDoomed after p = true
    · have hmem : p ∈ deleted before after :=
        mem_deleted.2 ⟨hp, hdoomed, fun n hn hid => hfree ⟨hdoomed, n, hn, hid⟩⟩
      exact Or.inr ⟨deletion p, deletion_mem_plan now hblue hmem, rfl, rfl, rfl, rfl⟩
    · -- what need not be deleted lives on, under a key that is wanted
      rw [isDoomed_iff, not_or] at hdoomed
      have ha : p.action ≠ .delete := by
        intro ha
        cases hc : p.isComplete with
        | true => exact hdelete ⟨ha, hc⟩
        | false => exact hdoomed.1 ⟨ha, hc⟩
      have hwanted : ∃ n ∈ after.nodes, n.key = p.key := by
        by_contra hnone
        exact hdoomed.2 ⟨ha, fun n hn hk => hnone ⟨n, hn, hk⟩, hcreate⟩
      obtain ⟨n, hn, hkey⟩ := hwanted
      obtain ⟨m, hm, hs⟩ := exists_standsFor now hblue hn
      have hprev : previous? before n.key = some p := by
        rw [hkey]
        exact previous?_eq_some_of_living hone hp ha
      exact Or.inl ⟨ha, ⟨n, hn, hkey⟩, m, hm, hs.key.trans hkey, hs.action,
        hs.state.trans (state_next_of_living hprev ha)⟩

/-- A database whose old incarnation could not be deleted, with its successor in some phase. -/
def succeeded (phase : Phase) : Infrastructure :=
  Graph.ofParts
    [sample "db" .delete .error,
      { sample "db" .create phase with color := .green, state := some (.str "rows") }] []

/-- The database alone. -/
def database : Infrastructure := Graph.ofParts [sample "db" .create .pending] []

/-- If the successor is complete, it keeps its color and the old incarnation is still deleted. -/
theorem accounted_of_complete_successor :
    OneLiving (succeeded .complete) ∧ (∀ n ∈ database.nodes, n.color = .blue) ∧
      sample "db" .delete .error ∈ (succeeded .complete).nodes ∧
      Accounted (plan Instant.epoch (succeeded .complete) database) database (sample "db" .delete .error) := by
  have hone : OneLiving (succeeded .complete) := by decide +kernel
  have hblue : ∀ n ∈ database.nodes, n.color = .blue := by decide +kernel
  have hmem : sample "db" .delete .error ∈ (succeeded .complete).nodes := by decide +kernel
  refine ⟨hone, hblue, hmem, ?_⟩
  exact (accounted_iff Instant.epoch hone hblue hmem (by decide +kernel) (by decide +kernel)).2
    (by decide +kernel)

/-- **A deletion can be forgotten.**  If the creation of the successor failed, it is tried again in the color
of the old incarnation, which is then neither deleted nor kept. -/
theorem not_accounted_of_failed_successor :
    OneLiving (succeeded .error) ∧ (∀ n ∈ database.nodes, n.color = .blue) ∧
      sample "db" .delete .error ∈ (succeeded .error).nodes ∧
      ¬ Accounted (plan Instant.epoch (succeeded .error) database) database (sample "db" .delete .error) := by
  decide +kernel

end Groundwork.Plan
