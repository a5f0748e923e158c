import Groundwork.Proofs.Plan.Contents
import Groundwork.Proofs.Reference.Renaming

/-!
# The search for unchanged nodes

The search goes over its candidates in rounds, and the outputs that a round judges by are those of the rounds
before it.  What it finds does not depend on that order: it is the least set of nodes that holds every
candidate whose inputs, resolved by the outputs of nodes in the set, have the fingerprint of the candidate.
`Found` is that set.

A candidate that was found changed stays so, since more outputs resolve its inputs to the same; and the
search ends with a round that finds nothing, after which all that is open cannot be resolved at all.

Main statements: one candidate after the other keeps the invariant of the search (`Progress.consider`), the
last round leaves open what cannot be resolved (`Progress.settle`), and the search finds the least set
(`mem_findUnchanged_iff`), so this set is what the no-ops of a plan are (`mem_plan_noOp_iff`).
-/

namespace Groundwork.Plan

open Infrastructure

variable {now : Instant} {S g : Infrastructure} {cs : List Candidate}

/-! ### What can be found -/

/-- The nodes of a graph that can be found unchanged: those whose inputs resolve by the outputs of such nodes to
what has the fingerprint of a candidate. -/
inductive Found (now : Instant) (S : Infrastructure) (cs : List Candidate) : InfraNode → Prop
  | mark {c : Candidate} {n : InfraNode} {inputs : Value} {outputs : Table Value} {source : String → InfraNode}
      (candidate : c ∈ cs) (mem : n ∈ S.nodes) (id : n.id = c.id)
      (known : ∀ x ∈ n.referencedIds, ∀ v, outputs.lookup x = some v → Found now S cs (source x))
      (named : ∀ x ∈ n.referencedIds, ∀ v, outputs.lookup x = some v →
        (source x).id = x ∧ (source x).outputs = some v)
      (resolved : Reference.resolve outputs n.inputs = .ok inputs)
      (same : fingerprint n.plugin n.image inputs = c.fingerprint) : Found now S cs (marked now c inputs n)

/-- A node is found by outputs each of which is that of some node that was found. -/
theorem Found.of_exists {c : Candidate} {n : InfraNode} {inputs : Value} {outputs : Table Value} (hc : c ∈ cs)
    (hn : n ∈ S.nodes) (hid : n.id = c.id)
    (known : ∀ x ∈ n.referencedIds, ∀ v, outputs.lookup x = some v →
      ∃ m, Found now S cs m ∧ m.id = x ∧ m.outputs = some v)
    (hres : Reference.resolve outputs n.inputs = .ok inputs)
    (hsame : fingerprint n.plugin n.image inputs = c.fingerprint) : Found now S cs (marked now c inputs n) := by
  have hsource : ∀ x, ∃ m, x ∈ n.referencedIds → ∀ v, outputs.lookup x = some v →
      Found now S cs m ∧ m.id = x ∧ m.outputs = some v := by
    intro x
    cases hv : outputs.lookup x with
    | none => exact ⟨n, fun _ v h => by cases h⟩
    | some v =>
      by_cases hx : x ∈ n.referencedIds
      · obtain ⟨m, hm⟩ := known x hx v hv
        refine ⟨m, fun _ w h => ?_⟩
        cases h
        exact hm
      · exact ⟨n, fun h => absurd h hx⟩
  choose source hsource using hsource
  exact Found.mark hc hn hid (fun x hx v hv => (hsource x hx v hv).1) (fun x hx v hv => (hsource x hx v hv).2)
    hres hsame

/-- **What is known in a search are the outputs of the no-ops.** -/
theorem lookup_unchangedOutputs {id : String} {v : Value} :
    (unchangedOutputs g).lookup id = some v ↔
      ∃ n ∈ g.nodes, n.id = id ∧ n.action = .noOp ∧ n.outputs = some v := by
  have h : (unchangedOutputs g).lookup id = some v ↔
      ∃ n ∈ g.nodes, n.id = id ∧ decide (n.action = .noOp) = true ∧ n.outputs = some v :=
    Table.lookup_filterMap_eq_some_iff g.ids_nodup
  simp only [decide_eq_true_eq] at h
  exact h

/-- Marking a node that is no no-op forgets no output. -/
theorem unchangedOutputs_within_markUnchanged {c : Candidate} (inputs : Value)
    (h : ∀ n ∈ g.nodes, n.id = c.id → n.action ≠ .noOp) :
    (unchangedOutputs g).Within (unchangedOutputs (markUnchanged now c inputs g)) := by
  intro id v hv
  obtain ⟨n, hn, hid, hno, ho⟩ := lookup_unchangedOutputs.1 hv
  refine lookup_unchangedOutputs.2 ⟨n, ?_, hid, hno, ho⟩
  exact mem_nodes_markUnchanged.2 (Or.inr ⟨hn, fun e => h n hn e hno⟩)

/-! ### The invariant -/

/-- What holds of the graph of a search and the candidates that have not been judged for good. -/
structure Progress (now : Instant) (S : Infrastructure) (cs : List Candidate) (g : Infrastructure)
    (pending : List Candidate) : Prop where
  subset : pending ⊆ cs
  distinct : (pending.map Candidate.id).Nodup
  untouched : ∀ c ∈ pending, ∀ n : InfraNode, n.id = c.id → (n ∈ g.nodes ↔ n ∈ S.nodes)
  found : ∀ m ∈ g.nodes, m.action = .noOp → Found now S cs m
  judged : ∀ c ∈ cs, c ∉ pending → ∀ n ∈ S.nodes, n.id = c.id →
    ∃ inputs, Reference.resolve (unchangedOutputs g) n.inputs = .ok inputs ∧
      (fingerprint n.plugin n.image inputs = c.fingerprint → marked now c inputs n ∈ g.nodes)

theorem Progress.start (hS : ∀ n ∈ S.nodes, n.action ≠ .noOp) (hcs : (cs.map Candidate.id).Nodup) :
    Progress now S cs S cs where
  subset := fun _ h => h
  distinct := hcs
  untouched := fun _ _ _ _ => Iff.rfl
  found := fun m hm hno => absurd hno (hS m hm)
  judged := fun _ hc hpending => absurd hc hpending

theorem mem_append_of_ne {x c : Candidate} {front back : List Candidate} (hx : x ∈ front ++ c :: back)
    (hne : x ≠ c) : x ∈ front ++ back :=
  (List.mem_cons.1 (List.perm_middle.mem_iff.1 hx)).resolve_left hne

/-- A candidate whose inputs resolve to what has another fingerprint is judged for good. -/
theorem Progress.judge_changed {c : Candidate} {front back : List Candidate}
    (hp : Progress now S cs g (front ++ c :: back))
    (hc : ∀ n ∈ S.nodes, n.id = c.id → ∃ inputs,
      Reference.resolve (unchangedOutputs g) n.inputs = .ok inputs ∧
        fingerprint n.plugin n.image inputs ≠ c.fingerprint) :
    Progress now S cs g (front ++ back) := by
  have hsub : (front ++ back).Sublist (front ++ c :: back) :=
    (List.sublist_cons_self c back).append_left front
  exact {
    subset := fun x hx => hp.subset (hsub.subset hx)
    distinct := hp.distinct.sublist (hsub.map _)
    untouched := fun x hx => hp.untouched x (hsub.subset hx)
    found := hp.found
    judged := by
      intro x hx hpending n hn hid
      by_cases hxc : x = c
      · subst hxc
        obtain ⟨inputs, hres, hne⟩ := hc n hn hid
        exact ⟨inputs, hres, fun e => absurd e hne⟩
      · exact hp.judged x hx (fun hmem => hpending (mem_append_of_ne hmem hxc)) n hn hid }

/-- So is one whose inputs have its fingerprint, and its node is marked. -/
theorem Progress.judge_unchanged (hS : ∀ n ∈ S.nodes, n.action ≠ .noOp) (hcs : (cs.map Candidate.id).Nodup)
    {c : Candidate} {front back : List Candidate} (hp : Progress now S cs g (front ++ c :: back))
    {n : InfraNode} (hn : n ∈ g.nodes) (hid : n.id = c.id) {outputs : Table Value}
    (hout : outputs.Within (unchangedOutputs g)) {inputs : Value}
    (hres : Reference.resolve outputs n.inputs = .ok inputs)
    (hsame : fingerprint n.plugin n.image inputs = c.fingerprint) :
    Progress now S cs (markUnchanged now c inputs g) (front ++ back) ∧
      (unchangedOutputs g).Within (unchangedOutputs (markUnchanged now c inputs g)) := by
  have hcmem : c ∈ front ++ c :: back := List.mem_append_right _ List.mem_cons_self
  have hnS : n ∈ S.nodes := (hp.untouched c hcmem n hid).1 hn
  have hgrow : (unchangedOutputs g).Within (unchangedOutputs (markUnchanged now c inputs g)) :=
    unchangedOutputs_within_markUnchanged inputs fun k hk hkid => hS k ((hp.untouched c hcmem k hkid).1 hk)
  have hsub : (front ++ back).Sublist (front ++ c :: back) :=
    (List.sublist_cons_self c back).append_left front
  have hdistinct : ∀ x ∈ cs, x ≠ c → x.id ≠ c.id := fun x hx hne e =>
    hne (List.inj_on_of_nodup_map hcs hx (hp.subset hcmem) e)
  -- the candidate stands once among the pending ones
  have hgone : c ∉ front ++ back := by
    intro hmem
    have hperm := (List.perm_middle : (front ++ c :: back).Perm _).map Candidate.id
    exact (List.nodup_cons.1 (hperm.nodup_iff.1 hp.distinct)).1 (List.mem_map_of_mem hmem)
  refine ⟨?_, hgrow⟩
  exact {
    subset := fun x hx => hp.subset (hsub.subset hx)
    distinct := hp.distinct.sublist (hsub.map _)
    untouched := by
      intro x hx k hk
      have hne : x.id ≠ c.id := hdistinct x (hp.subset (hsub.subset hx)) fun e => hgone (e ▸ hx)
      rw [mem_nodes_markUnchanged, ← hp.untouched x (hsub.subset hx) k hk]
      constructor
      · rintro (⟨l, -, hl, rfl⟩ | ⟨hkg, -⟩)
        · exact absurd (hk.symm.trans hl) hne
        · exact hkg
      · exact fun hkg => Or.inr ⟨hkg, fun e => hne (hk.symm.trans e)⟩
    found := by
      intro m hm hno
      rcases mem_nodes_markUnchanged.1 hm with ⟨k, hk, hkid, rfl⟩ | ⟨hm, -⟩
      · have hkn : k = n := Graph.eq_of_id_eq hk hn (hkid.trans hid.symm)
        subst hkn
        refine Found.of_exists (hp.subset hcmem) hnS hid (fun x _ v hx => ?_) hres hsame
        obtain ⟨l, hl, hlid, hlno, hlo⟩ := lookup_unchangedOutputs.1 (hout x v hx)
        exact ⟨l, hp.found l hl hlno, hlid, hlo⟩
      · exact hp.found m hm hno
    judged := by
      intro x hx hpending k hk hkid
      by_cases hxc : x = c
      · subst hxc
        have hkn : k = n := Graph.eq_of_id_eq hk hnS (hkid.trans hid.symm)
        subst hkn
        refine ⟨inputs, Reference.resolve_of_within (hout.trans hgrow) hres, fun _ => ?_⟩
        exact mem_nodes_markUnchanged.2 (Or.inl ⟨k, hn, hid, rfl⟩)
      · have hnot : x ∉ front ++ c :: back := fun hmem => hpending (mem_append_of_ne hmem hxc)
        obtain ⟨inputs', hres', hmark⟩ := hp.judged x hx hnot k hk hkid
        refine ⟨inputs', Reference.resolve_of_within hgrow hres', fun e => ?_⟩
        refine mem_nodes_markUnchanged.2 (Or.inr ⟨hmark e, fun e' => ?_⟩)
        exact hdistinct x hx hxc (hkid.symm.trans e') }

/-! ### Rounds -/

/-- A candidate is judged by the outputs of the round, which are known in the graph already. -/
theorem Progress.consider (hS : ∀ n ∈ S.nodes, n.action ≠ .noOp) (hcs : (cs.map Candidate.id).Nodup)
    {s : Search} {c : Candidate} {back : List Candidate} {outputs : Table Value}
    (hp : Progress now S cs s.graph (s.candidates ++ c :: back))
    (hout : outputs.Within (unchangedOutputs s.graph)) :
    Progress now S cs (s.consider now outputs c).graph ((s.consider now outputs c).candidates ++ back) ∧
      outputs.Within (unchangedOutputs (s.consider now outputs c).graph) := by
  have hcmem : c ∈ s.candidates ++ c :: back := List.mem_append_right _ List.mem_cons_self
  unfold Search.consider
  cases hjudge : judge s.graph outputs c with
  | «open» =>
    refine ⟨?_, hout⟩
    show Progress now S cs s.graph (s.candidates ++ [c] ++ back)
    rw [List.append_assoc]
    exact hp
  | changed =>
    refine ⟨hp.judge_changed fun n hn hid => ?_, hout⟩
    have hget : s.graph.node? c.id = some n :=
      Graph.node?_eq_some_iff.2 ⟨(hp.untouched c hcmem n hid).2 hn, hid⟩
    obtain ⟨inputs, hres, hne⟩ := exists_of_judge_changed hget hjudge
    exact ⟨inputs, Reference.resolve_of_within hout hres, hne⟩
  | unchanged inputs hash =>
    obtain ⟨n, hn, hid, hres, hsame⟩ := exists_of_judge_unchanged hjudge
    obtain ⟨hnew, hgrow⟩ := hp.judge_unchanged hS hcs hn hid hout hres hsame
    exact ⟨hnew, hout.trans hgrow⟩

theorem Progress.round (hS : ∀ n ∈ S.nodes, n.action ≠ .noOp) (hcs : (cs.map Candidate.id).Nodup) {s : Search}
    (hp : Progress now S cs s.graph s.candidates) :
    Progress now S cs (s.round now).graph (s.round now).candidates := by
  have hfold : ∀ (l : List Candidate) (x : Search), Progress now S cs x.graph (x.candidates ++ l) →
      (unchangedOutputs s.graph).Within (unchangedOutputs x.graph) →
      Progress now S cs (l.foldl (Search.consider now (unchangedOutputs s.graph)) x).graph
        (l.foldl (Search.consider now (unchangedOutputs s.graph)) x).candidates := by
    intro l
    induction l with
    | nil =>
      intro x hx _
      rw [List.append_nil] at hx
      exact hx
    | cons c l ih =>
      intro x hx hout
      obtain ⟨hnext, hgrow⟩ := hx.consider hS hcs hout
      exact ih _ hnext hgrow
  exact hfold s.candidates { s with candidates := [] } hp (Table.Within.refl _)

/-- Every candidate is kept or found, or it is changed. -/
theorem length_consider (now : Instant) (outputs : Table Value) (s : Search) (c : Candidate) :
    s.found.length ≤ (s.consider now outputs c).found.length ∧
      (s.consider now outputs c).candidates.length + (s.consider now outputs c).found.length
        ≤ s.candidates.length + s.found.length + 1 := by
  unfold Search.consider
  split
  · simp only [List.length_append, List.length_singleton]
    omega
  · omega
  · simp only [List.length_append, List.length_singleton]
    omega

theorem length_foldl_consider (now : Instant) (outputs : Table Value) (l : List Candidate) (s : Search) :
    s.found.length ≤ (l.foldl (Search.consider now outputs) s).found.length ∧
      (l.foldl (Search.consider now outputs) s).candidates.length
          + (l.foldl (Search.consider now outputs) s).found.length
        ≤ s.candidates.length + s.found.length + l.length := by
  induction l generalizing s with
  | nil =>
    show s.found.length ≤ s.found.length ∧ s.candidates.length + s.found.length ≤ _
    omega
  | cons c l ih =>
    have hfirst := length_consider now outputs s c
    have hrest := ih (s.consider now outputs c)
    rw [List.foldl_cons, List.length_cons]
    omega

/-- If nothing is found, the graph stays and only what cannot be resolved is kept. -/
theorem foldl_consider_of_found_eq {outputs : Table Value} {l : List Candidate} {s : Search}
    (h : (l.foldl (Search.consider now outputs) s).found.length = s.found.length) :
    (l.foldl (Search.consider now outputs) s).graph = s.graph ∧
      ∀ c ∈ (l.foldl (Search.consider now outputs) s).candidates,
        c ∈ s.candidates ∨ judge s.graph outputs c = .open := by
  induction l generalizing s with
  | nil => exact ⟨rfl, fun c hc => Or.inl hc⟩
  | cons c l ih =>
    rw [List.foldl_cons] at h ⊢
    have hfirst := length_consider now outputs s c
    have hrest := length_foldl_consider now outputs l (s.consider now outputs c)
    have hsame : (s.consider now outputs c).found.length = s.found.length := by omega
    obtain ⟨hgraph, hkept⟩ := ih (h.trans hsame.symm)
    have hone : (s.consider now outputs c).graph = s.graph ∧
        ∀ x ∈ (s.consider now outputs c).candidates, x ∈ s.candidates ∨ judge s.graph outputs x = .open := by
      unfold Search.consider at hsame ⊢
      split at hsame
      · rename_i hjudge
        refine ⟨rfl, fun x hx => ?_⟩
        rcases List.mem_append.1 hx with hx | hx
        · exact Or.inl hx
        · rw [List.mem_singleton.1 hx]
          exact Or.inr hjudge
      · exact ⟨rfl, fun x hx => Or.inl hx⟩
      · simp at hsame
    refine ⟨hgraph.trans hone.1, fun x hx => ?_⟩
    rcases hkept x hx with hx | hx
    · exact hone.2 x hx
    · rw [hone.1] at hx
      exact Or.inr hx

/-- **The last round leaves open what cannot be resolved.**  Each other round leaves fewer candidates, so there
are rounds enough. -/
theorem Progress.settle (hS : ∀ n ∈ S.nodes, n.action ≠ .noOp) (hcs : (cs.map Candidate.id).Nodup)
    {n : Nat} {s : Search} (hp : Progress now S cs s.graph s.candidates) (hn : s.candidates.length < n) :
    Progress now S cs (s.settle now n).graph (s.settle now n).candidates ∧
      ∀ c ∈ (s.settle now n).candidates,
        judge (s.settle now n).graph (unchangedOutputs (s.settle now n).graph) c = .open := by
  induction n generalizing s with
  | zero => exact absurd hn (Nat.not_lt_zero _)
  | succ n ih =>
    have hround := hp.round hS hcs
    have hlength := length_foldl_consider now (unchangedOutputs s.graph) s.candidates
      { s with candidates := [] }
    rw [Search.settle]
    split
    · rename_i hnone
      obtain ⟨hgraph, hkept⟩ := foldl_consider_of_found_eq (s := { s with candidates := [] }) hnone
      have hgraph : (s.round now).graph = s.graph := hgraph
      refine ⟨hround, fun c hc => ?_⟩
      rw [hgraph]
      exact (hkept c hc).resolve_left fun h => by cases h
    · rename_i hsome
      refine ih hround ?_
      have hfound : (s.round now).found.length ≠ s.found.length := hsome
      have hlength : s.found.length ≤ (s.round now).found.length ∧
          (s.round now).candidates.length + (s.round now).found.length
            ≤ 0 + s.found.length + s.candidates.length := hlength
      omega

/-! ### What is found -/

/-- **The search finds exactly what can be found.** -/
theorem mem_findUnchanged_iff (hS : ∀ n ∈ S.nodes, n.action ≠ .noOp) (hcs : (cs.map Candidate.id).Nodup)
    {m : InfraNode} :
    (m ∈ (findUnchanged now S cs).graph.nodes ∧ m.action = .noOp) ↔ Found now S cs m := by
  have hstart : Progress now S cs S cs := Progress.start hS hcs
  obtain ⟨hp, hopen⟩ := hstart.settle hS hcs (s := ⟨S, cs, []⟩) (Nat.lt_succ_self cs.length)
  constructor
  · rintro ⟨hm, hno⟩
    exact hp.found m hm hno
  · intro hm
    induction hm with
    | mark hc hn hid known named resolved same ih =>
      rename_i c n inputs outputs source
      refine ⟨?_, rfl⟩
      have hres : Reference.resolve (unchangedOutputs (findUnchanged now S cs).graph) n.inputs = .ok inputs := by
        refine Reference.resolve_mono resolved fun e he r hr v hv => ?_
        have hx : r.node ∈ n.referencedIds := InfraNode.mem_referencedIds.2 ⟨e, he, r, hr, rfl⟩
        exact lookup_unchangedOutputs.2 ⟨source r.node, (ih r.node hx v hv).1, (named r.node hx v hv).1,
          (ih r.node hx v hv).2, (named r.node hx v hv).2⟩
      by_cases hpending : c ∈ (Search.settle now (cs.length + 1) ⟨S, cs, []⟩).candidates
      · -- an open candidate has no inputs
        have hget : (findUnchanged now S cs).graph.node? c.id = some n :=
          Graph.node?_eq_some_iff.2 ⟨(hp.untouched c hpending n hid).2 hn, hid⟩
        have hjudge : judge (findUnchanged now S cs).graph (unchangedOutputs (findUnchanged now S cs).graph) c
            = .open := hopen c hpending
        rw [judge_of_resolve hget hres, if_pos same] at hjudge
        cases hjudge
      · obtain ⟨inputs', hres', hmark⟩ := hp.judged c hc hpending n hn hid
        have hinputs : inputs' = inputs := Except.ok.inj (hres'.symm.trans hres)
        subst hinputs
        exact hmark same

/-! ### Unchanged nodes of a plan -/

section Plans

variable {before after : Infrastructure}

/-- A candidate belongs to one wanted node. -/
theorem DistinctIds.exists_of_candidate (hids : DistinctIds before after) {c : Candidate}
    (hc : c ∈ candidates before after) {k : InfraNode} (hk : k ∈ (skeleton before after).nodes)
    (hid : k.id = c.id) :
    ∃ n ∈ after.nodes, candidate? before n = some c ∧ k = planned before after n := by
  obtain ⟨n, hn, hcn⟩ := List.mem_filterMap.1 hc
  obtain ⟨prev, -, -, -, rfl⟩ := candidate?_eq_some_iff.1 hcn
  exact ⟨n, hn, hcn, hids.eq_planned hk hn hid⟩

theorem exists_of_candidate (hblue : ∀ n ∈ after.nodes, n.color = .blue) {c : Candidate}
    (hc : c ∈ candidates before after) {k : InfraNode} (hk : k ∈ (skeleton before after).nodes)
    (hid : k.id = c.id) :
    ∃ n ∈ after.nodes, candidate? before n = some c ∧ k = planned before after n :=
  (distinctIds_of_blue before hblue).exists_of_candidate hc hk hid

theorem DistinctIds.nodup_candidates (hids : DistinctIds before after) :
    ((candidates before after).map Candidate.id).Nodup := by
  have hsub : ∀ l : List InfraNode, ((l.filterMap (candidate? before)).map Candidate.id).Sublist
      (l.map fun n => (next before n).id) := by
    intro l
    induction l with
    | nil => exact List.Sublist.refl _
    | cons n l ih =>
      rw [List.filterMap_cons, List.map_cons]
      cases hc : candidate? before n with
      | none => exact ih.cons _
      | some c =>
        obtain ⟨-, -, -, -, rfl⟩ := candidate?_eq_some_iff.1 hc
        exact ih.cons_cons _
  rw [DistinctIds, idsOf, List.map_map] at hids
  exact hids.sublist (hsub after.nodes)

/-- **The no-ops of a plan are the nodes that can be found unchanged.** -/
theorem DistinctIds.mem_plan_noOp_iff (hids : DistinctIds before after) {m : InfraNode} :
    (m ∈ (plan now before after).nodes ∧ m.action = .noOp) ↔
      Found now (skeleton before after) (candidates before after) m :=
  mem_findUnchanged_iff (fun _ hk => (of_mem_skeleton hk).1) hids.nodup_candidates

theorem mem_plan_noOp_iff (hblue : ∀ n ∈ after.nodes, n.color = .blue) {m : InfraNode} :
    (m ∈ (plan now before after).nodes ∧ m.action = .noOp) ↔
      Found now (skeleton before after) (candidates before after) m :=
  (distinctIds_of_blue before hblue).mem_plan_noOp_iff

/-- **What is found unchanged has what its inputs resolve to** by the outputs of such nodes, and the fingerprint
of its candidate. -/
theorem Found.resolution (hblue : ∀ n ∈ after.nodes, n.color = .blue) {m n : InfraNode}
    (h : Found now (skeleton before after) (candidates before after) m) (hn : n ∈ after.nodes)
    (hid : m.id = (next before n).id) :
    ∃ outputs, Reference.resolve outputs (planned before after n).inputs = .ok m.inputs ∧
      (∀ x ∈ (planned before after n).referencedIds, ∀ v, outputs.lookup x = some v →
        ∃ k, Found now (skeleton before after) (candidates before after) k ∧ k.id = x ∧ k.outputs = some v) ∧
      ∃ c, candidate? before n = some c ∧ fingerprint n.plugin n.image m.inputs = c.fingerprint := by
  cases h with
  | mark hc hj hjc known named resolved same =>
    rename_i outputs source
    obtain ⟨l, hl, hcl, rfl⟩ := exists_of_candidate hblue hc hj hjc
    have hsame : l = n := eq_of_id_next_eq hblue hl hn hid
    subst hsame
    refine ⟨outputs, resolved, fun x hx v hv => ⟨source x, known x hx v hv, named x hx v hv⟩, _, hcl, ?_⟩
    rw [← plugin_next before l, ← image_next before l]
    exact same

end Plans

end Groundwork.Plan
