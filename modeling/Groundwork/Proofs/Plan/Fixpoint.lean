import Groundwork.Proofs.Data.Sorted
import Groundwork.Proofs.Plan.Search

/-!
# No-ops as a least fixpoint

Which updates of a plan are no-ops can be said without the search: an update repeats what was applied before if
the node that it follows is complete, and its inputs, with outputs that other repeating updates had before in the
place of references, are what was applied.  This describes a set by itself, and the no-ops are the least such
set.  The search comes to it after few rounds, whatever the order of the candidates is, so the order of nodes in
the two graphs does not matter.

All this needs that wanted nodes get ids in the plan that differ.  Nodes of one color do; but nodes of two colors
whose keys have the same id may end up in one place.

Main statements: the no-ops are the least set of updates that repeat by it (`plan_noOps`), and what fails without
distinct ids (`plan_noOps_clash`).
-/

namespace Groundwork.Plan

open Infrastructure

variable {now : Instant} {before after before' after' : Infrastructure} {S T : Set InfraNode}
  {n m prev : InfraNode} {inputs : Value}

/-! ### Updates that repeat -/

/-- Whether a value is what the inputs of a wanted node become in the plan, with outputs in the place of references
that nodes of a set had before. -/
def ResolvesBy (before after : Infrastructure) (S : Set InfraNode) (n : InfraNode) (inputs : Value) : Prop :=
  ∃ outputs : Table Value,
    (∀ x ∈ (planned before after n).referencedIds, ∀ v, outputs.lookup x = some v →
      ∃ k ∈ S, (next before k).id = x ∧ ∃ prev, previous? before k.key = some prev ∧ prev.outputs = some v) ∧
    Reference.resolve outputs (planned before after n).inputs = .ok inputs

/-- Whether a wanted node is an update of a complete node that repeats what was applied before, with these inputs,
if the nodes of a set are unchanged. -/
structure Repeats (before after : Infrastructure) (S : Set InfraNode) (n prev : InfraNode) (inputs : Value) :
    Prop where
  wanted : n ∈ after.nodes
  update : (next before n).action = .update
  matched : previous? before n.key = some prev
  complete : prev.isComplete = true
  resolved : ResolvesBy before after S n inputs
  same : fingerprint n.plugin n.image inputs = nodeFingerprint prev

/-- What stands in the plan for a wanted node that repeats what was applied before. -/
def repeated (now : Instant) (before after : Infrastructure) (n prev : InfraNode) (inputs : Value) : InfraNode :=
  { planned before after n with
    inputs, action := .noOp, status := .completeAt now, outputs := prev.outputs, state := prev.state }

/-- The wanted nodes that are no-ops in the plan. -/
def unchanged (now : Instant) (before after : Infrastructure) : Set InfraNode :=
  {n | n ∈ after.nodes ∧ ∃ m ∈ (plan now before after).nodes, m.id = (next before n).id ∧ m.action = .noOp}

/-- A wanted node is an update if it follows a node that need not be created again. -/
theorem action_next_eq_update_iff :
    (next before n).action = .update ↔ ∃ prev, previous? before n.key = some prev ∧ mustRecreate prev = false := by
  cases hprev : previous? before n.key with
  | none => simp [next_eq_of_new hprev]
  | some prev =>
    cases hrecreate : mustRecreate prev with
    | true => simp [next_eq_of_recreated hprev hrecreate, hrecreate]
    | false => simp [next_eq_of_kept hprev hrecreate, hrecreate]

/-- A wanted node is a candidate if it is an update of a complete node. -/
theorem candidate?_eq_some_of_update (hupdate : (next before n).action = .update)
    (hprev : previous? before n.key = some prev) (hcomplete : prev.isComplete = true) :
    candidate? before n = some ⟨(next before n).id, nodeFingerprint prev, prev.outputs, prev.state⟩ := by
  obtain ⟨prev', hprev', hrecreate⟩ := action_next_eq_update_iff.1 hupdate
  cases hprev.symm.trans hprev'
  exact candidate?_eq_some_iff.2 ⟨prev, hprev, hrecreate, hcomplete, rfl⟩

theorem ResolvesBy.mono (h : ResolvesBy before after S n inputs) (hST : S ⊆ T) :
    ResolvesBy before after T n inputs := by
  obtain ⟨outputs, hknown, hres⟩ := h
  refine ⟨outputs, fun x hx v hv => ?_, hres⟩
  obtain ⟨k, hk, hid, hprev⟩ := hknown x hx v hv
  exact ⟨k, hST hk, hid, hprev⟩

theorem Repeats.mono (h : Repeats before after S n prev inputs) (hST : S ⊆ T) :
    Repeats before after T n prev inputs := { h with resolved := h.resolved.mono hST }

/-! ### What is found repeats -/

/-- **What is found unchanged repeats what was applied before**, if a set holds all that repeats by it. -/
theorem Found.repeats (hids : DistinctIds before after)
    (hT : ∀ n prev inputs, Repeats before after T n prev inputs → n ∈ T)
    (h : Found now (skeleton before after) (candidates before after) m) :
    ∃ n prev inputs, Repeats before after T n prev inputs ∧ m = repeated now before after n prev inputs := by
  induction h with
  | mark hc hk hid known named resolved same ih =>
    rename_i c k inputs outputs source
    obtain ⟨n, hn, hcn, rfl⟩ := hids.exists_of_candidate hc hk hid
    obtain ⟨prev, hprev, hrecreate, hcomplete, rfl⟩ := candidate?_eq_some_iff.1 hcn
    refine ⟨n, prev, inputs, ⟨hn, action_next_eq_update_iff.2 ⟨prev, hprev, hrecreate⟩, hprev, hcomplete, ?_, ?_⟩,
      rfl⟩
    · refine ⟨outputs, fun x hx v hv => ?_, resolved⟩
      obtain ⟨hsource, hout⟩ := named x hx v hv
      obtain ⟨j, prev', inputs', hj, hsame⟩ := ih x hx v hv
      rw [hsame] at hsource hout
      exact ⟨j, hT j prev' inputs' hj, hsource, prev', hj.matched, hout⟩
    · rw [← plugin_next before n, ← image_next before n]
      exact same

/-- A node that can be found is told by the wanted node that it stands for, but for its inputs. -/
theorem Found.eq_repeated (hids : DistinctIds before after)
    (h : Found now (skeleton before after) (candidates before after) m) (hn : n ∈ after.nodes)
    (hid : m.id = (next before n).id) :
    ∃ prev inputs, previous? before n.key = some prev ∧ m = repeated now before after n prev inputs := by
  obtain ⟨k, prev, inputs, hk, rfl⟩ := h.repeats (T := Set.univ) hids fun _ _ _ _ => trivial
  have hkn : k = n := hids.eq_of_id_eq hk.wanted hn hid
  subst hkn
  exact ⟨prev, inputs, hk.matched, rfl⟩

/-! ### The least fixpoint -/

theorem mem_unchanged_iff (hids : DistinctIds before after) :
    n ∈ unchanged now before after ↔ n ∈ after.nodes ∧
      ∃ m, Found now (skeleton before after) (candidates before after) m ∧ m.id = (next before n).id := by
  refine and_congr_right fun _ => exists_congr fun m => ?_
  rw [← hids.mem_plan_noOp_iff]
  exact ⟨fun ⟨hm, hid, hno⟩ => ⟨⟨hm, hno⟩, hid⟩, fun ⟨⟨hm, hno⟩, hid⟩ => ⟨hm, hid, hno⟩⟩

/-- **What repeats by the no-ops can be found.** -/
theorem Repeats.found (hids : DistinctIds before after)
    (h : Repeats before after (unchanged now before after) n prev inputs) :
    Found now (skeleton before after) (candidates before after) (repeated now before after n prev inputs) := by
  obtain ⟨outputs, hknown, hres⟩ := h.resolved
  have hc := candidate?_eq_some_of_update h.update h.matched h.complete
  have hmem : (⟨(next before n).id, nodeFingerprint prev, prev.outputs, prev.state⟩ : Candidate) ∈
      candidates before after := List.mem_filterMap.2 ⟨n, h.wanted, hc⟩
  refine Found.of_exists hmem (hids.planned_mem h.wanted) rfl (fun x hx v hv => ?_) hres ?_
  · obtain ⟨k, hk, hid, prev', hprev', hout⟩ := hknown x hx v hv
    obtain ⟨hwanted, m, hm, hmid⟩ := (mem_unchanged_iff hids).1 hk
    obtain ⟨prev'', inputs'', hprev'', rfl⟩ := hm.eq_repeated hids hwanted hmid
    cases hprev'.symm.trans hprev''
    exact ⟨_, hm, hmid.trans hid, hout⟩
  · show fingerprint (next before n).plugin (next before n).image inputs = _
    rw [plugin_next, image_next]
    exact h.same

/-- The no-ops hold all that repeats by them. -/
theorem Repeats.mem_unchanged (hids : DistinctIds before after)
    (h : Repeats before after (unchanged now before after) n prev inputs) : n ∈ unchanged now before after :=
  (mem_unchanged_iff hids).2 ⟨h.wanted, _, h.found hids, rfl⟩

/-- **A wanted node is a no-op exactly if it repeats by the no-ops.** -/
theorem mem_unchanged_iff_repeats (hids : DistinctIds before after) :
    n ∈ unchanged now before after ↔
      ∃ prev inputs, Repeats before after (unchanged now before after) n prev inputs := by
  constructor
  · intro hn
    obtain ⟨hwanted, m, hm, hid⟩ := (mem_unchanged_iff hids).1 hn
    obtain ⟨k, prev, inputs, hk, rfl⟩ :=
      hm.repeats (T := unchanged now before after) hids fun _ _ _ h => h.mem_unchanged hids
    have hkn : k = n := hids.eq_of_id_eq hk.wanted hwanted hid
    subst hkn
    exact ⟨prev, inputs, hk⟩
  · rintro ⟨prev, inputs, h⟩
    exact h.mem_unchanged hids

/-- **A set that holds all that repeats by it holds the no-ops.** -/
theorem unchanged_subset (hids : DistinctIds before after)
    (hT : ∀ n prev inputs, Repeats before after T n prev inputs → n ∈ T) : unchanged now before after ⊆ T := by
  intro n hn
  obtain ⟨hwanted, m, hm, hid⟩ := (mem_unchanged_iff hids).1 hn
  obtain ⟨k, prev, inputs, hk, rfl⟩ := hm.repeats hids hT
  have hkn : k = n := hids.eq_of_id_eq hk.wanted hwanted hid
  subst hkn
  exact hT k prev inputs hk

/-- **The no-ops of a plan are what stands in it for wanted nodes that repeat by them.** -/
theorem mem_plan_noOp_iff_repeated (hids : DistinctIds before after) :
    (m ∈ (plan now before after).nodes ∧ m.action = .noOp) ↔
      ∃ n prev inputs, Repeats before after (unchanged now before after) n prev inputs ∧
        m = repeated now before after n prev inputs := by
  rw [hids.mem_plan_noOp_iff]
  constructor
  · exact fun hm => hm.repeats hids fun _ _ _ h => h.mem_unchanged hids
  · rintro ⟨n, prev, inputs, h, rfl⟩
    exact h.found hids

/-- A node of a plan was found unchanged, or it is as it was before the search. -/
theorem DistinctIds.mem_plan_iff (hids : DistinctIds before after) :
    m ∈ (plan now before after).nodes ↔
      Found now (skeleton before after) (candidates before after) m ∨
        (m ∈ (skeleton before after).nodes ∧
          ∀ k, Found now (skeleton before after) (candidates before after) k → k.id ≠ m.id) := by
  constructor
  · intro hm
    by_cases hno : m.action = .noOp
    · exact Or.inl (hids.mem_plan_noOp_iff.1 ⟨hm, hno⟩)
    · refine Or.inr ⟨?_, fun k hk hid => hno ?_⟩
      · rcases mem_nodes_plan hm with hm | ⟨c, -, k, -, -, inputs, rfl⟩
        · exact hm
        · exact absurd rfl hno
      · obtain ⟨hkm, hkno⟩ := hids.mem_plan_noOp_iff.2 hk
        rw [← Graph.eq_of_id_eq hkm hm hid]
        exact hkno
  · rintro (hm | ⟨hm, hfree⟩)
    · exact (hids.mem_plan_noOp_iff.2 hm).1
    · -- some node of the plan has the id, and it was not found
      have hid : m.id ∈ (plan now before after).ids := by
        rw [ids_plan]
        exact Graph.id_mem_ids hm
      obtain ⟨k, hk, hkm⟩ := Graph.mem_ids_iff.1 hid
      rcases mem_nodes_plan hk with hks | ⟨c, hc, j, hj, hjc, inputs, rfl⟩
      · rw [← Graph.eq_of_id_eq hks hm hkm]
        exact hk
      · exact absurd hkm (hfree _ (hids.mem_plan_noOp_iff.1 ⟨hk, rfl⟩))

/-- All else in a plan is pending. -/
theorem status_of_mem_plan (hm : m ∈ (plan now before after).nodes) (hno : m.action ≠ .noOp) :
    m.status = .pending := by
  rcases mem_nodes_plan hm with hm | ⟨c, -, k, -, -, inputs, rfl⟩
  · rcases planned_or_deletion_of_mem_skeleton hm with ⟨n, -, rfl⟩ | ⟨p, -, rfl⟩
    · exact status_next before n
    · rfl
  · exact absurd rfl hno

/-! ### Order -/

/-- A node is also found among more nodes and candidates. -/
theorem Found.of_subset {S T : Infrastructure} {cs ds : List Candidate} (hnodes : S.nodes ⊆ T.nodes) (hcs : cs ⊆ ds)
    (h : Found now S cs m) : Found now T ds m := by
  induction h with
  | mark hc hn hid known named resolved same ih =>
    exact Found.mark (hcs hc) (hnodes hn) hid ih named resolved same

theorem DistinctIds.mem_skeleton_iff (hids : DistinctIds before after) :
    m ∈ (skeleton before after).nodes ↔
      (∃ n, n ∈ after.nodes ∧ m = planned before after n) ∨ ∃ p, p ∈ deleted before after ∧ m = deletion p := by
  constructor
  · exact planned_or_deletion_of_mem_skeleton
  · rintro (⟨n, hn, rfl⟩ | ⟨p, hp, rfl⟩)
    · exact hids.planned_mem hn
    · rw [nodes_skeleton]
      exact List.mem_append_right _ (List.mem_map_of_mem hp)

/-- Whether two graphs differ in the order of their nodes and edges at most. -/
structure Reordered (g h : Infrastructure) : Prop where
  nodes : h.nodes.Perm g.nodes
  edges : h.edges.Perm g.edges

/-- Whether the graphs that two plans are made from differ in order at most, and nodes follow the same ones. -/
structure SameMatches (before after before' after' : Infrastructure) : Prop where
  applied : Reordered before before'
  wanted : Reordered after after'
  previous : ∀ key, previous? before' key = previous? before key

namespace SameMatches

variable (h : SameMatches before after before' after')

include h

theorem next_eq (n : InfraNode) : next before' n = next before n := by
  unfold next
  rw [h.previous]

theorem candidate?_eq (n : InfraNode) : candidate? before' n = candidate? before n := by
  unfold candidate?
  rw [h.previous, h.next_eq]

theorem distinctIds (hids : DistinctIds before after) : DistinctIds before' after' := by
  have hnext : next before' = next before := funext h.next_eq
  rw [DistinctIds, hnext]
  exact (((h.wanted.nodes.map (next before)).map InfraNode.id).nodup_iff).2 hids

theorem lookup_newIds (id : String) :
    (newIds before' after').lookup id = (newIds before after).lookup id := by
  have hnext : next before' = next before := funext h.next_eq
  have hkeys : ∀ g : Infrastructure, (Table.keys (g.nodes.map fun n => (n.id, (next before n).id))).Nodup := by
    intro g
    rw [Table.keys, List.map_map]
    exact g.ids_nodup
  rw [newIds, newIds, hnext, Table.ofPairs_eq_self (hkeys after'), Table.ofPairs_eq_self (hkeys after)]
  exact Table.lookup_of_perm (h.wanted.nodes.map _) (hkeys after') id

theorem planned_eq (n : InfraNode) : planned before' after' n = planned before after n := by
  rw [planned, planned, h.next_eq, renameInputs, renameInputs]
  have hinputs := Reference.rename_congr (v := (next before n).inputs) fun _ _ r _ => h.lookup_newIds r.node
  rw [hinputs]

theorem mem_candidates {c : Candidate} : c ∈ candidates before' after' ↔ c ∈ candidates before after := by
  have hcandidate : candidate? before' = candidate? before := funext h.candidate?_eq
  rw [candidates, candidates, hcandidate]
  exact (h.wanted.nodes.filterMap _).mem_iff

theorem isDoomed_eq (p : InfraNode) : isDoomed after' p = isDoomed after p := by
  have hany : (after'.nodes.any fun n => n.key = p.key) = after.nodes.any fun n => n.key = p.key := by
    rw [Bool.eq_iff_iff, List.any_eq_true, List.any_eq_true]
    exact exists_congr fun n => and_congr_left fun _ => h.wanted.nodes.mem_iff
  unfold isDoomed
  rw [hany]

theorem mem_deleted_iff {p : InfraNode} : p ∈ deleted before' after' ↔ p ∈ deleted before after := by
  rw [mem_deleted, mem_deleted, h.applied.nodes.mem_iff, h.isDoomed_eq]
  refine and_congr_right fun _ => and_congr_right fun _ => ?_
  constructor
  · intro hfree n hn
    rw [← h.next_eq]
    exact hfree n (h.wanted.nodes.mem_iff.2 hn)
  · intro hfree n hn
    rw [h.next_eq]
    exact hfree n (h.wanted.nodes.mem_iff.1 hn)

theorem mem_nodes_skeleton (hids : DistinctIds before after) :
    m ∈ (skeleton before' after').nodes ↔ m ∈ (skeleton before after).nodes := by
  rw [hids.mem_skeleton_iff, (h.distinctIds hids).mem_skeleton_iff]
  refine or_congr (exists_congr fun n => ?_) (exists_congr fun p => and_congr_left fun _ => h.mem_deleted_iff)
  rw [h.planned_eq, h.wanted.nodes.mem_iff]

theorem found_iff (hids : DistinctIds before after) :
    Found now (skeleton before' after') (candidates before' after') m ↔
      Found now (skeleton before after) (candidates before after) m := by
  constructor
  · exact fun hm => hm.of_subset (fun _ => (h.mem_nodes_skeleton hids).1) fun _ => h.mem_candidates.1
  · exact fun hm => hm.of_subset (fun _ => (h.mem_nodes_skeleton hids).2) fun _ => h.mem_candidates.2

theorem mem_edges_live_iff {e : Edge} : e ∈ (live before' after').edges ↔ e ∈ (live before after).edges := by
  have hname : newName (newIds before' after') = newName (newIds before after) := by
    funext id
    rw [newName, newName, h.lookup_newIds]
  rw [mem_edges_live, mem_edges_live, hname]
  exact and_congr_right fun _ => exists_congr fun x => and_congr_left fun _ => h.wanted.edges.mem_iff

theorem mem_deletionEdges_iff {p : InfraNode} {e : Edge} :
    e ∈ deletionEdges before' p ↔ e ∈ deletionEdges before p := by
  rw [mem_deletionEdges, mem_deletionEdges, h.applied.edges.mem_iff, h.applied.edges.mem_iff]

theorem mem_ids_skeleton (hids : DistinctIds before after) {id : String} :
    id ∈ (skeleton before' after').ids ↔ id ∈ (skeleton before after).ids := by
  rw [Graph.mem_ids_iff, Graph.mem_ids_iff]
  exact exists_congr fun m => and_congr_left fun _ => h.mem_nodes_skeleton hids

theorem mem_edges_skeleton_iff (hids : DistinctIds before after) {e : Edge} :
    e ∈ (skeleton before' after').edges ↔ e ∈ (skeleton before after).edges := by
  rw [mem_edges_skeleton, mem_edges_skeleton, h.mem_edges_live_iff, h.mem_ids_skeleton hids]
  refine or_congr_right (and_congr_right fun _ => and_congr_right fun _ => exists_congr fun p => ?_)
  rw [h.mem_deleted_iff, h.mem_deletionEdges_iff]

/-- **The order of nodes and edges does not matter to a plan.** -/
theorem reordered_plan (hids : DistinctIds before after) :
    Reordered (plan now before after) (plan now before' after') where
  nodes := by
    have hnodup : ∀ g : Infrastructure, g.nodes.Nodup := fun g => List.Nodup.of_map _ g.ids_nodup
    refine (List.perm_ext_iff_of_nodup (hnodup _) (hnodup _)).2 fun m => ?_
    rw [hids.mem_plan_iff, (h.distinctIds hids).mem_plan_iff, h.found_iff hids, h.mem_nodes_skeleton hids]
    refine or_congr_right (and_congr_right fun _ => forall_congr' fun k => ?_)
    rw [h.found_iff hids]
  edges := by
    refine (List.perm_ext_iff_of_nodup (Graph.edges_nodup _) (Graph.edges_nodup _)).2 fun e => ?_
    rw [edges_plan, edges_plan]
    exact h.mem_edges_skeleton_iff hids

end SameMatches

/-! ### Rounds -/

/-- The rounds of a search, until one finds nothing, with their number. -/
inductive Settles (now : Instant) : Nat → Search → Search → Prop
  | last {s : Search} (nothing : (s.round now).found.length = s.found.length) : Settles now 1 s (s.round now)
  | more {s t : Search} {rounds : Nat} (something : (s.round now).found.length ≠ s.found.length)
      (on : Settles now rounds (s.round now) t) : Settles now (rounds + 1) s t

/-- **A round with a find leaves fewer candidates, so the loop ends after as many rounds as there are candidates,
and one.** -/
theorem settles_settle {limit : Nat} {s : Search} (hlimit : s.candidates.length < limit) :
    ∃ rounds ≤ s.candidates.length + 1, Settles now rounds s (s.settle now limit) := by
  induction limit generalizing s with
  | zero => exact absurd hlimit (Nat.not_lt_zero _)
  | succ limit ih =>
    rw [Search.settle]
    split
    · rename_i hnothing
      exact ⟨1, Nat.succ_le_succ (Nat.zero_le _), .last hnothing⟩
    · rename_i hsomething
      have hround : s.found.length ≤ (s.round now).found.length ∧
          (s.round now).candidates.length + (s.round now).found.length
            ≤ 0 + s.found.length + s.candidates.length :=
        length_foldl_consider now (unchangedOutputs s.graph) s.candidates { s with candidates := [] }
      have hfound : (s.round now).found.length ≠ s.found.length := hsomething
      have hfewer : (s.round now).candidates.length < s.candidates.length := by omega
      obtain ⟨rounds, hle, hsettles⟩ := ih (Nat.lt_of_lt_of_le hfewer (Nat.le_of_lt_succ hlimit))
      exact ⟨rounds + 1, by omega, .more hfound hsettles⟩

/-! ### The search of a plan -/

/-- **The no-ops of a plan are the least set of updates that repeat by it.**  If wanted nodes get ids that differ:
the wanted nodes that are no-ops are those that repeat by them, and every set that holds all that repeats by it
holds them; in the plan each of them is complete, with what the node that it follows had and with its inputs
resolved, and all else is pending; the order of nodes and edges does not matter as long as nodes follow the same
ones; and the search ends after as many rounds as there are candidates, and one, at most. -/
theorem plan_noOps (now : Instant) {before after : Infrastructure} (hids : DistinctIds before after) :
    (∀ n, n ∈ unchanged now before after ↔
        ∃ prev inputs, Repeats before after (unchanged now before after) n prev inputs) ∧
      (∀ T : Set InfraNode, (∀ n prev inputs, Repeats before after T n prev inputs → n ∈ T) →
        unchanged now before after ⊆ T) ∧
      (∀ m, (m ∈ (plan now before after).nodes ∧ m.action = .noOp) ↔
        ∃ n prev inputs, Repeats before after (unchanged now before after) n prev inputs ∧
          m = repeated now before after n prev inputs) ∧
      (∀ m ∈ (plan now before after).nodes, m.action ≠ .noOp → m.status = .pending) ∧
      (∀ before' after', SameMatches before after before' after' →
        Reordered (plan now before after) (plan now before' after')) ∧
      ∃ rounds ≤ (candidates before after).length + 1,
        Settles now rounds ⟨skeleton before after, candidates before after, []⟩ (search now before after) := by
  refine ⟨fun n => mem_unchanged_iff_repeats hids, fun T hT => unchanged_subset hids hT,
    fun m => mem_plan_noOp_iff_repeated hids, fun m hm hno => status_of_mem_plan hm hno,
    fun before' after' h => h.reordered_plan hids, ?_⟩
  have hlimit : (candidates before after).length < (candidates before after).length + 1 := Nat.lt_succ_self _
  exact settles_settle (s := ⟨skeleton before after, candidates before after, []⟩) hlimit

/-- An app that refers to a database, and a cache; the app is wanted first. -/
def linked : Infrastructure :=
  Graph.ofParts
    [{ sample "app" .create .pending with inputs := .obj [("db", .str "$\x7b\x7b module/db@blue.id \x7d\x7d")] },
      sample "cache" .create .pending, sample "db" .create .pending]
    [⟨"module/app@blue", "module/db@blue"⟩]

/-- The three as they were applied, the cache with another image. -/
def linkedApplied : Infrastructure :=
  Graph.ofParts
    [{ sample "db" .create .complete with outputs := some (.obj [("id", .str "db-1")]) },
      { sample "cache" .create .complete with image := "old" },
      { sample "app" .create .complete with inputs := .obj [("db", .str "db-1")] }]
    [⟨"module/app@blue", "module/db@blue"⟩]

/-- The app is found in the second round, after the database. -/
theorem plan_noOps_linked :
    DistinctIds linkedApplied linked ∧
      ((plan Instant.epoch linkedApplied linked).nodes.map fun m => (m.id, m.action)) =
        [("module/app@blue", .noOp), ("module/cache@blue", .update), ("module/db@blue", .noOp)] ∧
      (∀ n, n ∈ unchanged Instant.epoch linkedApplied linked ↔
        ∃ prev inputs, Repeats linkedApplied linked (unchanged Instant.epoch linkedApplied linked) n prev inputs) := by
  have hids : DistinctIds linkedApplied linked := by decide +kernel
  exact ⟨hids, by decide +kernel, (plan_noOps Instant.epoch hids).1⟩

/-- Two nodes whose keys have the same id, in two colors. -/
def clashing : Infrastructure :=
  Graph.ofParts [sample "a.b" .create .pending, { sample "a-b" .create .pending with color := .green }] []

/-- The first of them, as it was applied in the color of the second. -/
def clashingApplied : Infrastructure := Graph.ofParts [{ sample "a.b" .create .complete with color := .green }] []

/-- **Without distinct ids a node that follows none can be a no-op.**  It gets the place of an update whose key has
the same id, and is taken for it. -/
theorem plan_noOps_clash :
    (clashing.nodes.map InfraNode.key).Nodup ∧
      ∃ m ∈ (plan Instant.epoch clashingApplied clashing).nodes,
        m.action = .noOp ∧ previous? clashingApplied m.key = none := by
  decide +kernel

end Groundwork.Plan
