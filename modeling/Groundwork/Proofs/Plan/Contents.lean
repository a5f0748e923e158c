import Groundwork.Plan
import Groundwork.Proofs.Infrastructure.Changes
import Mathlib.Data.List.Nodup

/-!
# What a plan consists of

A plan is put together in three stages, and each is described here by its nodes and edges.  The live nodes
come first; then the deletions, save those whose id a live node has; then the search for unchanged nodes
rewrites live nodes without adding, removing or moving anything.

Main statements: if wanted nodes get ids that differ, as they do where all of them are blue
(`distinctIds_of_blue`), the live nodes are what they become (`nodes_live`); the nodes of a plan are the live ones and the deletions (`nodes_skeleton`,
`planned_or_deletion_of_mem_skeleton`), its edges are the renamed ones and
those of the deletions (`mem_edges_skeleton`); the search keeps ids and edges (`ids_plan`, `edges_plan`) and
rewrites candidates only (`mem_nodes_plan`).
-/

namespace Groundwork.Plan

open Infrastructure

variable {now : Instant} {before after : Infrastructure}

/-! ### Live nodes -/

section Next

variable {n p : InfraNode}

/-- What has no incarnation before it is made as it is wanted. -/
theorem next_eq_of_new (h : previous? before n.key = none) :
    next before n = { n with status := .pending, outputs := none, action := .create } := by
  simp only [next, h]

/-- An incarnation that is being deleted or was never finished is followed by a new one of the other color. -/
theorem next_eq_of_recreated (h : previous? before n.key = some p) (hre : mustRecreate p = true) :
    next before n = { n with
      status := .pending, outputs := none, action := .create, color := p.color.flipped
      state := if p.action = .create then p.state else n.state } := by
  simp only [next, h, hre, if_true]

/-- Any other incarnation is kept and updated. -/
theorem next_eq_of_kept (h : previous? before n.key = some p) (hkeep : mustRecreate p = false) :
    next before n = { n with
      status := .pending, outputs := none, action := .update, color := p.color, state := p.state } := by
  simp only [next, h, hkeep, Bool.false_eq_true, if_false]

theorem action_next_eq_or (before : Infrastructure) (n : InfraNode) :
    (next before n).action = .create ∨ (next before n).action = .update := by
  cases hprev : previous? before n.key with
  | none => exact Or.inl (by rw [next_eq_of_new hprev])
  | some p =>
    cases hre : mustRecreate p with
    | true => exact Or.inl (by rw [next_eq_of_recreated hprev hre])
    | false => exact Or.inr (by rw [next_eq_of_kept hprev hre])

end Next

/-- A wanted node keeps its key, its image, its plugin and its inputs; the rest is decided anew. -/
theorem next_eq (before : Infrastructure) (n : InfraNode) :
    next before n = { n with
      action := (next before n).action, color := (next before n).color, state := (next before n).state
      status := .pending, outputs := none } := by
  cases hprev : previous? before n.key with
  | none => rw [next_eq_of_new hprev]
  | some p =>
    cases hre : mustRecreate p with
    | true => rw [next_eq_of_recreated hprev hre]
    | false => rw [next_eq_of_kept hprev hre]

theorem image_next (before : Infrastructure) (n : InfraNode) : (next before n).image = n.image :=
  (congrArg InfraNode.image (next_eq before n)).trans rfl

theorem plugin_next (before : Infrastructure) (n : InfraNode) : (next before n).plugin = n.plugin :=
  (congrArg InfraNode.plugin (next_eq before n)).trans rfl

theorem inputs_next (before : Infrastructure) (n : InfraNode) : (next before n).inputs = n.inputs :=
  (congrArg InfraNode.inputs (next_eq before n)).trans rfl

theorem status_next (before : Infrastructure) (n : InfraNode) : (next before n).status = .pending :=
  (congrArg InfraNode.status (next_eq before n)).trans rfl

theorem mem_ids_live {id : String} :
    id ∈ (live before after).ids ↔ ∃ n ∈ after.nodes, (next before n).id = id := by
  have h : (live before after).ids = ((Graph.empty.insertNodes (after.nodes.map (next before))).insertEdges
      after.edges).ids := ids_renameNodes _ _
  rw [h, Graph.ids_congr (Graph.nodes_insertEdges _ _), Graph.mem_ids_insertNodes]
  show id ∈ [] ∨ id ∈ (after.nodes.map (next before)).map InfraNode.id ↔ _
  simp only [List.not_mem_nil, false_or, List.map_map, List.mem_map, Function.comp_apply]

/-- The new name of a wanted node is the id of what it becomes. -/
theorem lookup_newIds {n : InfraNode} (h : n ∈ after.nodes) :
    (newIds before after).lookup n.id = some (next before n).id := by
  refine Table.lookup_ofPairs ?_ (List.mem_map.2 ⟨n, h, rfl⟩)
  rw [List.map_map]
  exact after.ids_nodup

theorem newName_newIds {n : InfraNode} (h : n ∈ after.nodes) :
    newName (newIds before after) n.id = (next before n).id := by
  rw [newName, lookup_newIds h]
  rfl

theorem mem_edges_live {e : Edge} :
    e ∈ (live before after).edges ↔ e.isLoop = false ∧ ∃ x ∈ after.edges,
      e = ⟨newName (newIds before after) x.source, newName (newIds before after) x.target⟩ := by
  rw [live, mem_edges_renameNodes]
  refine and_congr_right fun _ => exists_congr fun x => and_congr_left fun _ => ?_
  rw [Graph.mem_edges_insertEdges, Graph.edges_insertNodes]
  constructor
  · rintro (hx | ⟨hx, -⟩)
    · cases hx
    · exact hx
  · intro hx
    exact Or.inr ⟨hx, after.edges_proper x hx⟩

/-- Blue nodes whose ids differ get new ids that differ. -/
theorem eq_of_id_next_eq (hblue : ∀ n ∈ after.nodes, n.color = .blue) {m n : InfraNode}
    (hm : m ∈ after.nodes) (hn : n ∈ after.nodes) (h : (next before m).id = (next before n).id) : m = n := by
  have hkeys : (next before m).key.id = (next before n).key.id := (InfraNode.idOf_eq_idOf_iff.1 h).1
  rw [key_next, key_next] at hkeys
  refine Graph.eq_of_id_eq hm hn (InfraNode.idOf_eq_idOf_iff.2 ⟨hkeys, ?_⟩)
  rw [hblue m hm, hblue n hn]

/-- Whether wanted nodes get ids in the plan that differ. -/
def DistinctIds (before after : Infrastructure) : Prop := (idsOf (after.nodes.map (next before))).Nodup

instance (before after : Infrastructure) : Decidable (DistinctIds before after) :=
  inferInstanceAs (Decidable (idsOf (after.nodes.map (next before))).Nodup)

/-- The nodes of a target of blue nodes do. -/
theorem distinctIds_of_blue (before : Infrastructure) (hblue : ∀ n ∈ after.nodes, n.color = .blue) :
    DistinctIds before after := by
  rw [DistinctIds, idsOf, List.map_map]
  refine List.Nodup.map_on (fun m hm n hn h => eq_of_id_next_eq hblue hm hn h) ?_
  exact List.Nodup.of_map _ after.ids_nodup

theorem DistinctIds.eq_of_id_eq (hids : DistinctIds before after) {m n : InfraNode} (hm : m ∈ after.nodes)
    (hn : n ∈ after.nodes) (h : (next before m).id = (next before n).id) : m = n := by
  rw [DistinctIds, idsOf, List.map_map] at hids
  exact List.inj_on_of_nodup_map hids hm hn h

/-- **The live nodes are what wanted nodes become, with their references renamed,** if their ids differ. -/
theorem nodes_live (hids : DistinctIds before after) :
    (live before after).nodes
      = after.nodes.map fun n => renameInputs (newIds before after) (next before n) := by
  have hnodes : ((Graph.empty.insertNodes (after.nodes.map (next before))).insertEdges after.edges).nodes
      = after.nodes.map (next before) := by
    rw [Graph.nodes_insertEdges, Graph.nodes_insertNodes hids]
    · exact List.nil_append _
    · exact fun n _ h => List.not_mem_nil h
  by_cases hnames : newIds before after = []
  · have hempty : after.nodes = [] := List.map_eq_nil_iff.1 (Table.ofPairs_eq_nil_iff.1 hnames)
    rw [live, renameNodes, hnames, hempty]
    rw [hempty] at hnodes
    exact hnodes
  · rw [live, nodes_renameNodes hnames, hnodes, List.map_map]
    rfl

/-! ### Deletions -/

/-- The nodes that a plan deletes: those that have to go and whose id no live node has. -/
def deleted (before after : Infrastructure) : List InfraNode :=
  before.nodes.filter fun p => isDoomed after p && !(live before after).contains p.id

theorem mem_deleted {p : InfraNode} :
    p ∈ deleted before after ↔
      p ∈ before.nodes ∧ isDoomed after p = true ∧ ∀ n ∈ after.nodes, (next before n).id ≠ p.id := by
  rw [deleted, List.mem_filter, Bool.and_eq_true, Bool.not_eq_true', Bool.eq_false_iff, Ne,
    Graph.contains_iff, mem_ids_live]
  simp only [not_exists, not_and]

/-- Taking in deletions with distinct ids: those whose id is free are appended. -/
theorem foldl_delete {l : List InfraNode} (hl : (l.map InfraNode.id).Nodup) (d : Draft) :
    let kept := l.filter fun p => !d.graph.contains p.id
    (l.foldl Draft.delete d).deleted = d.deleted ++ kept ∧
      (l.foldl Draft.delete d).graph.nodes = d.graph.nodes ++ kept.map deletion ∧
      (l.foldl Draft.delete d).graph.edges = d.graph.edges := by
  induction l generalizing d with
  | nil => simp
  | cons p l ih =>
    obtain ⟨hp, hl⟩ := List.nodup_cons.1 hl
    rw [List.foldl_cons]
    by_cases hc : d.graph.contains p.id = true
    · have hd : Draft.delete d p = { d with skipped := d.skipped ++ [p.id] } := by
        rw [Draft.delete, if_pos hc]
      rw [hd, List.filter_cons_of_neg (by simpa using hc)]
      exact ih hl _
    · have hd : Draft.delete d p
          = { d with graph := d.graph.insertNode (deletion p), deleted := d.deleted ++ [p] } := by
        rw [Draft.delete, if_neg hc]
      have hfree : p.id ∉ d.graph.ids := fun h => hc (Graph.contains_iff.2 h)
      have hnodes : (d.graph.insertNode (deletion p)).nodes = d.graph.nodes ++ [deletion p] :=
        Graph.nodes_insertNode_of_not_mem hfree
      -- the ids of the others are not that of `p`, so taking it in decides nothing about them
      have hsame : (l.filter fun q => !(d.graph.insertNode (deletion p)).contains q.id)
          = l.filter fun q => !d.graph.contains q.id := by
        refine List.filter_congr fun q hq => ?_
        have hne : q.id ≠ p.id := fun e => hp (List.mem_map.2 ⟨q, hq, e⟩)
        have hiff : (d.graph.insertNode (deletion p)).contains q.id = d.graph.contains q.id := by
          rw [Bool.eq_iff_iff, Graph.contains_iff, Graph.contains_iff, Graph.mem_ids_insertNode]
          exact or_iff_left hne
        rw [hiff]
      obtain ⟨hdel, hnod, hedg⟩ := ih hl
        { d with graph := d.graph.insertNode (deletion p), deleted := d.deleted ++ [p] }
      rw [hd, List.filter_cons_of_pos (by simpa using hc)]
      refine ⟨?_, ?_, hedg⟩
      · rw [hdel, hsame, List.append_assoc]
        rfl
      · rw [hnod, hsame, hnodes, List.append_assoc]
        rfl

theorem nodup_ids_doomed (before after : Infrastructure) :
    ((before.nodes.filter (isDoomed after)).map InfraNode.id).Nodup :=
  before.ids_nodup.sublist (List.filter_sublist.map _)

theorem deleted_draft (before after : Infrastructure) :
    (draft before after).deleted = deleted before after := by
  rw [draft, (foldl_delete (nodup_ids_doomed before after) _).1, List.filter_filter, List.nil_append,
    deleted]
  exact List.filter_congr fun p _ => Bool.and_comm _ _

theorem nodes_draft (before after : Infrastructure) :
    (draft before after).graph.nodes
      = (live before after).nodes ++ (deleted before after).map deletion := by
  rw [draft, (foldl_delete (nodup_ids_doomed before after) _).2.1, List.filter_filter, deleted]
  congr 2
  exact List.filter_congr fun p _ => Bool.and_comm _ _

theorem edges_draft (before after : Infrastructure) :
    (draft before after).graph.edges = (live before after).edges :=
  (foldl_delete (nodup_ids_doomed before after) _).2.2

/-! ### Before the search -/

/-- **The nodes of a plan are the live ones and then the deletions.** -/
theorem nodes_skeleton (before after : Infrastructure) :
    (skeleton before after).nodes
      = (live before after).nodes ++ (deleted before after).map deletion := by
  rw [skeleton, Graph.nodes_insertEdges, nodes_draft]

/-- What stands in a plan for a wanted node before the search. -/
def planned (before after : Infrastructure) (n : InfraNode) : InfraNode :=
  renameInputs (newIds before after) (next before n)

theorem DistinctIds.planned_mem (hids : DistinctIds before after) {n : InfraNode} (hn : n ∈ after.nodes) :
    planned before after n ∈ (skeleton before after).nodes := by
  rw [nodes_skeleton, nodes_live hids]
  exact List.mem_append_left _ (List.mem_map.2 ⟨n, hn, rfl⟩)

theorem planned_mem_skeleton (hblue : ∀ n ∈ after.nodes, n.color = .blue) {n : InfraNode}
    (hn : n ∈ after.nodes) : planned before after n ∈ (skeleton before after).nodes :=
  (distinctIds_of_blue before hblue).planned_mem hn

/-- What lives on or comes new stands for a wanted node. -/
theorem exists_of_mem_live {k : InfraNode} (hk : k ∈ (live before after).nodes) :
    ∃ n ∈ after.nodes, k = planned before after n := by
  have hnext : ∀ j ∈ ((Graph.empty.insertNodes (after.nodes.map (next before))).insertEdges after.edges).nodes,
      ∃ n ∈ after.nodes, next before n = j := by
    intro j hj
    rw [Graph.nodes_insertEdges] at hj
    exact List.mem_map.1 ((Graph.mem_nodes_of_mem_insertNodes hj).resolve_left List.not_mem_nil)
  by_cases hnames : newIds before after = []
  · have hempty : after.nodes = [] := List.map_eq_nil_iff.1 (Table.ofPairs_eq_nil_iff.1 hnames)
    rw [live, renameNodes, hnames] at hk
    obtain ⟨n, hn, -⟩ := hnext k hk
    rw [hempty] at hn
    cases hn
  · rw [live, nodes_renameNodes hnames] at hk
    obtain ⟨j, hj, rfl⟩ := List.mem_map.1 hk
    obtain ⟨n, hn, rfl⟩ := hnext j hj
    exact ⟨n, hn, rfl⟩

/-- **Before the search a plan holds what stands for wanted nodes, and deletions.** -/
theorem planned_or_deletion_of_mem_skeleton {k : InfraNode} (hk : k ∈ (skeleton before after).nodes) :
    (∃ n ∈ after.nodes, k = planned before after n) ∨ ∃ p ∈ deleted before after, k = deletion p := by
  rw [nodes_skeleton] at hk
  rcases List.mem_append.1 hk with hk | hk
  · exact Or.inl (exists_of_mem_live hk)
  · obtain ⟨p, hp, rfl⟩ := List.mem_map.1 hk
    exact Or.inr ⟨p, hp, rfl⟩

/-- Nothing is unchanged, and nothing done, before the search. -/
theorem of_mem_skeleton {k : InfraNode} (hk : k ∈ (skeleton before after).nodes) :
    k.action ≠ .noOp ∧ k.isComplete = false := by
  rcases planned_or_deletion_of_mem_skeleton hk with ⟨n, -, rfl⟩ | ⟨p, -, rfl⟩
  · refine ⟨?_, ?_⟩
    · show (next before n).action ≠ .noOp
      rcases action_next_eq_or before n with h | h <;> rw [h] <;> exact nofun
    · show decide ((next before n).status.phase = .complete) = false
      rw [status_next]
      rfl
  · exact ⟨(fun h => by cases h), rfl⟩

/-- A node of a plan before the search is told by its id. -/
theorem DistinctIds.eq_planned (hids : DistinctIds before after) {k n : InfraNode}
    (hk : k ∈ (skeleton before after).nodes) (hn : n ∈ after.nodes) (hid : k.id = (next before n).id) :
    k = planned before after n :=
  Graph.eq_of_id_eq hk (hids.planned_mem hn) hid

theorem eq_planned (hblue : ∀ n ∈ after.nodes, n.color = .blue) {k n : InfraNode}
    (hk : k ∈ (skeleton before after).nodes) (hn : n ∈ after.nodes) (hid : k.id = (next before n).id) :
    k = planned before after n :=
  (distinctIds_of_blue before hblue).eq_planned hk hn hid

theorem mem_ids_skeleton {id : String} :
    id ∈ (skeleton before after).ids ↔
      id ∈ (live before after).ids ∨ ∃ p ∈ deleted before after, p.id = id := by
  show id ∈ (skeleton before after).nodes.map InfraNode.id ↔ _
  rw [nodes_skeleton, List.map_append, List.mem_append, List.map_map]
  exact or_congr_right List.mem_map

/-- **The edges of a plan are those of the live nodes and those of the deletions that lead to a node of the
plan.** -/
theorem mem_edges_skeleton {e : Edge} :
    e ∈ (skeleton before after).edges ↔ e ∈ (live before after).edges ∨
      (e.isLoop = false ∧ e.target ∈ (skeleton before after).ids
        ∧ ∃ p ∈ deleted before after, e ∈ deletionEdges before p) := by
  have hids : (skeleton before after).ids = (draft before after).graph.ids :=
    Graph.ids_congr (Graph.nodes_insertEdges _ _)
  rw [hids, skeleton, Graph.mem_edges_insertEdges, edges_draft]
  refine or_congr_right ?_
  rw [List.mem_filter, List.mem_flatMap, deleted_draft, Graph.contains_iff, and_comm, and_comm (a := ∃ _, _)]

theorem mem_deletionEdges {p : InfraNode} {e : Edge} :
    e ∈ deletionEdges before p ↔ e.source = p.id ∧
      (if p.action = .delete then e ∈ before.edges else e.reversed ∈ before.edges) := by
  unfold deletionEdges
  split
  · rw [List.mem_filter, decide_eq_true_eq, and_comm]
  · rw [List.mem_map]
    constructor
    · rintro ⟨x, hx, rfl⟩
      obtain ⟨hx, ht⟩ := List.mem_filter.1 hx
      exact ⟨of_decide_eq_true ht, hx⟩
    · rintro ⟨hs, hr⟩
      exact ⟨e.reversed, List.mem_filter.2 ⟨hr, decide_eq_true hs⟩, rfl⟩

/-! ### The search -/

/-- A node that was found unchanged. -/
def marked (now : Instant) (c : Candidate) (inputs : Value) (n : InfraNode) : InfraNode :=
  { n with inputs, action := .noOp, status := .completeAt now, outputs := c.outputs, state := c.state }

theorem mem_nodes_markUnchanged {c : Candidate} {inputs : Value} {g : Infrastructure} {m : InfraNode} :
    m ∈ (markUnchanged now c inputs g).nodes ↔
      (∃ n ∈ g.nodes, n.id = c.id ∧ m = marked now c inputs n) ∨ (m ∈ g.nodes ∧ m.id ≠ c.id) :=
  Graph.mem_nodes_update

section Judging

variable {g : Infrastructure} {outputs : Table Value} {c : Candidate} {n : InfraNode} {inputs : Value}

theorem judge_of_error (hn : g.node? c.id = some n) {e : ExpressionError}
    (hres : Reference.resolve outputs n.inputs = .error e) : judge g outputs c = .open := by
  simp only [judge, hn, hres]

/-- The verdict on a candidate whose inputs resolve is told by their fingerprint. -/
theorem judge_of_resolve (hn : g.node? c.id = some n) (hres : Reference.resolve outputs n.inputs = .ok inputs) :
    judge g outputs c = if fingerprint n.plugin n.image inputs = c.fingerprint
      then .unchanged inputs (fingerprint n.plugin n.image inputs) else .changed := by
  simp only [judge, hn, hres]

/-- What is judged changed resolves to what has another fingerprint. -/
theorem exists_of_judge_changed (hn : g.node? c.id = some n) (h : judge g outputs c = .changed) :
    ∃ inputs, Reference.resolve outputs n.inputs = .ok inputs ∧
      fingerprint n.plugin n.image inputs ≠ c.fingerprint := by
  cases hres : Reference.resolve outputs n.inputs with
  | error e =>
    rw [judge_of_error hn hres] at h
    cases h
  | ok inputs =>
    rw [judge_of_resolve hn hres] at h
    refine ⟨inputs, rfl, fun hsame => ?_⟩
    rw [if_pos hsame] at h
    cases h

/-- What is judged unchanged resolves to what has the fingerprint that was applied before. -/
theorem exists_of_judge_unchanged {hash : String} (h : judge g outputs c = .unchanged inputs hash) :
    ∃ n ∈ g.nodes, n.id = c.id ∧ Reference.resolve outputs n.inputs = .ok inputs ∧
      fingerprint n.plugin n.image inputs = c.fingerprint := by
  cases hn : g.node? c.id with
  | none => simp [judge, hn] at h
  | some n =>
    obtain ⟨hmem, hid⟩ := Graph.node?_eq_some_iff.1 hn
    cases hres : Reference.resolve outputs n.inputs with
    | error e =>
      rw [judge_of_error hn hres] at h
      cases h
    | ok inputs' =>
      rw [judge_of_resolve hn hres] at h
      split at h
      · rename_i hsame
        cases h
        exact ⟨n, hmem, hid, hres, hsame⟩
      · cases h

/-- The inputs with which a candidate is judged unchanged give the fingerprint that was applied before. -/
theorem fingerprint_of_judge {hash : String} (h : judge g outputs c = .unchanged inputs hash) :
    ∀ n ∈ g.nodes, n.id = c.id → fingerprint n.plugin n.image inputs = c.fingerprint := by
  intro n hn hid
  obtain ⟨k, hk, hkid, -, hsame⟩ := exists_of_judge_unchanged h
  rw [Graph.eq_of_id_eq hn hk (hid.trans hkid.symm)]
  exact hsame

end Judging

/-- What marking nodes of the same fingerprint keeps, the search keeps. -/
theorem graph_findUnchanged_induction {P : Infrastructure → Prop} (cs : List Candidate)
    (mark : ∀ g c inputs, c ∈ cs →
      (∀ n ∈ g.nodes, n.id = c.id → fingerprint n.plugin n.image inputs = c.fingerprint) →
      P g → P (markUnchanged now c inputs g)) {g : Infrastructure} (h : P g) :
    P (findUnchanged now g cs).graph := by
  have consider : ∀ (outputs : Table Value) (s : Search) (c : Candidate), c ∈ cs →
      (P s.graph ∧ ∀ x ∈ s.candidates, x ∈ cs) →
      (P (s.consider now outputs c).graph ∧ ∀ x ∈ (s.consider now outputs c).candidates, x ∈ cs) := by
    rintro outputs s c hc ⟨hg, hs⟩
    unfold Search.consider
    split
    · refine ⟨hg, fun x hx => ?_⟩
      rcases List.mem_append.1 hx with hx | hx
      · exact hs x hx
      · rwa [List.mem_singleton.1 hx]
    · exact ⟨hg, hs⟩
    · rename_i hjudge
      exact ⟨mark _ c _ hc (fingerprint_of_judge hjudge) hg, hs⟩
  have considerAll : ∀ (outputs : Table Value) (l : List Candidate) (s : Search), (∀ x ∈ l, x ∈ cs) →
      (P s.graph ∧ ∀ x ∈ s.candidates, x ∈ cs) →
      (P (l.foldl (Search.consider now outputs) s).graph
        ∧ ∀ x ∈ (l.foldl (Search.consider now outputs) s).candidates, x ∈ cs) := by
    intro outputs l
    induction l with
    | nil => exact fun s _ hs => hs
    | cons c l ih =>
      intro s hl hs
      exact ih _ (fun x hx => hl x (List.mem_cons_of_mem c hx)) (consider outputs s c (hl c List.mem_cons_self) hs)
  have settle : ∀ (n : Nat) (s : Search), (P s.graph ∧ ∀ x ∈ s.candidates, x ∈ cs) →
      P (s.settle now n).graph := by
    intro n
    induction n with
    | zero => exact fun s hs => hs.1
    | succ n ih =>
      intro s hs
      have hround := considerAll (unchangedOutputs s.graph) s.candidates { s with candidates := [] } hs.2
        ⟨hs.1, fun x hx => by cases hx⟩
      unfold Search.settle
      dsimp only
      split
      · exact hround.1
      · exact ih _ hround
  exact settle (cs.length + 1) ⟨g, cs, []⟩ ⟨h, fun _ hx => hx⟩

/-- The nodes that may turn out to be unchanged. -/
def candidates (before after : Infrastructure) : List Candidate := after.nodes.filterMap (candidate? before)

/-- **A node of a plan is as it was before the search, or it was found unchanged.** -/
theorem mem_nodes_plan {m : InfraNode} (h : m ∈ (plan now before after).nodes) :
    m ∈ (skeleton before after).nodes ∨
      ∃ c ∈ candidates before after, ∃ n ∈ (skeleton before after).nodes,
        n.id = c.id ∧ ∃ inputs, m = marked now c inputs n := by
  refine graph_findUnchanged_induction (candidates before after)
    (P := fun g => ∀ m ∈ g.nodes, m ∈ (skeleton before after).nodes ∨
      ∃ c ∈ candidates before after, ∃ n ∈ (skeleton before after).nodes,
        n.id = c.id ∧ ∃ inputs, m = marked now c inputs n) ?_ (fun _ h => Or.inl h) m h
  intro g c inputs hc _ hg m hm
  rcases mem_nodes_markUnchanged.1 hm with ⟨n, hn, hid, rfl⟩ | ⟨hm, -⟩
  · rcases hg n hn with hn | ⟨c', -, k, hk, -, inputs', rfl⟩
    · exact Or.inr ⟨c, hc, n, hn, hid, inputs, rfl⟩
    · -- marking a node again leaves nothing of the first time
      exact Or.inr ⟨c, hc, k, hk, hid, inputs, rfl⟩
  · exact hg m hm

/-- A candidate is an update of a complete incarnation, whose id and state it has. -/
theorem candidate?_eq_some_iff {n : InfraNode} {c : Candidate} :
    candidate? before n = some c ↔ ∃ prev, previous? before n.key = some prev ∧
      mustRecreate prev = false ∧ prev.isComplete = true ∧
      c = ⟨(next before n).id, nodeFingerprint prev, prev.outputs, prev.state⟩ := by
  unfold candidate?
  cases hprev : previous? before n.key with
  | none => simp
  | some prev =>
    simp only [Option.some.injEq, exists_eq_left']
    split
    · rename_i h
      simp only [Bool.and_eq_true, Bool.not_eq_true'] at h
      simp only [Option.some.injEq, h.1, h.2, true_and]
      exact eq_comm
    · rename_i h
      simp only [Bool.and_eq_true, Bool.not_eq_true'] at h
      simp only [reduceCtorEq, false_iff]
      exact fun hc => h ⟨hc.1, hc.2.1⟩

/-- **The complete nodes of a plan are those that were found unchanged.** -/
theorem isComplete_iff_of_mem_plan {m : InfraNode} (hm : m ∈ (plan now before after).nodes) :
    m.isComplete = true ↔ m.action = .noOp := by
  rcases mem_nodes_plan hm with hm | ⟨c, -, k, -, -, inputs, rfl⟩
  · obtain ⟨hno, hc⟩ := of_mem_skeleton hm
    rw [hc]
    exact ⟨fun h => absurd h Bool.false_ne_true, fun h => absurd h hno⟩
  · exact ⟨fun _ => rfl, fun _ => rfl⟩

/-- A plan changes the nodes that are no no-ops. -/
theorem changes_ofGraph (g : Infrastructure) :
    (Summary.ofGraph g).changes = g.nodes.countP (·.action ≠ .noOp) := by
  show g.nodes.countP (·.action = .create) + g.nodes.countP (·.action = .update)
    + g.nodes.countP (·.action = .delete) = _
  induction g.nodes with
  | nil => rfl
  | cons n l ih =>
    rw [List.countP_cons, List.countP_cons, List.countP_cons, List.countP_cons, ← ih]
    cases n.action <;> simp <;> omega

theorem edges_plan (now : Instant) (before after : Infrastructure) :
    (plan now before after).edges = (skeleton before after).edges :=
  graph_findUnchanged_induction _ (P := fun g => g.edges = (skeleton before after).edges)
    (fun _ _ _ _ _ h => h) rfl

theorem ids_plan (now : Instant) (before after : Infrastructure) :
    (plan now before after).ids = (skeleton before after).ids :=
  graph_findUnchanged_induction _ (P := fun g => g.ids = (skeleton before after).ids)
    (fun _ _ _ _ _ h => (Graph.ids_update _ _ _ _).trans h) rfl

/-! ### Small graphs -/

/-- A node of the type `module` with a change that has come to some phase. -/
def sample (name : String) (action : Action) (phase : Phase) : InfraNode :=
  { InfraNode.create (Key.unscoped "module" name) "img" .pulumi with
    action, status := ⟨phase, none, none, none, none⟩ }

end Groundwork.Plan
