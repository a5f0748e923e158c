import Groundwork.Proofs.Infrastructure.Changes
import Groundwork.Proofs.Run.Machine
import Mathlib.Data.List.Nodup

/-!
# What every run keeps

The invariant of a run ties four things together.  The graph has the edges and nodes of the plan, in later
stages.  Calls in flight are about distinct nodes that are not complete.  The queue holds distinct nodes, as
they stand in the graph, that are neither complete nor in flight and wait for nothing.  And as long as
nothing has failed, every node that was called is in flight or complete; so the queue never holds a node
that was called before.

Main statements: each move keeps the invariant (`Inv.move`), so it holds whenever a run has got anywhere
(`Inv.of_reaches`).
-/

namespace Groundwork.Run

open Relation
open Infrastructure

variable {o : RunOptions} {g : Infrastructure}

/-! ### Turns -/

theorem prepare_of_delete (outputs : Table Value) (now : Instant) {n : InfraNode} (h : n.action = .delete) :
    prepare outputs now n = .ok { n with status := n.status.moveTo .destroying none now } := by
  rw [prepare, if_pos h]

theorem prepare_of_resolve {outputs : Table Value} {n : InfraNode} {inputs : Value} (h : n.action ≠ .delete)
    (hinputs : Reference.resolve outputs n.inputs = .ok inputs) (now : Instant) :
    prepare outputs now n = .ok { n with inputs, status := n.status.moveTo .applying none now } := by
  rw [prepare, if_neg h, hinputs]

theorem prepare_of_error {outputs : Table Value} {n : InfraNode} {cause : ExpressionError} (h : n.action ≠ .delete)
    (hinputs : Reference.resolve outputs n.inputs = .error cause) (now : Instant) :
    prepare outputs now n = .error (.unresolvedReference n.id cause) := by
  rw [prepare, if_neg h, hinputs]

/-- A node that is to be deleted is prepared as it is, and any other with its inputs resolved. -/
theorem prepare_cases {outputs : Table Value} {now : Instant} {n m : InfraNode} (h : prepare outputs now n = .ok m) :
    (n.action = .delete ∧ m = { n with status := n.status.moveTo .destroying none now }) ∨
      (n.action ≠ .delete ∧ ∃ inputs, Reference.resolve outputs n.inputs = .ok inputs ∧
        m = { n with inputs, status := n.status.moveTo .applying none now }) := by
  by_cases hdelete : n.action = .delete
  · rw [prepare_of_delete outputs now hdelete] at h
    exact Or.inl ⟨hdelete, (Except.ok.inj h).symm⟩
  · cases hinputs : Reference.resolve outputs n.inputs with
    | error cause =>
      rw [prepare_of_error hdelete hinputs now] at h
      cases h
    | ok inputs =>
      rw [prepare_of_resolve hdelete hinputs now] at h
      exact Or.inr ⟨hdelete, inputs, rfl, (Except.ok.inj h).symm⟩

theorem prepare_eq_ok {outputs : Table Value} {now : Instant} {n m : InfraNode}
    (h : prepare outputs now n = .ok m) :
    SameChange n m ∧ m.isComplete = false ∧ m.outputs = n.outputs ∧ m.state = n.state ∧
      (n.action = .delete ∧ m.inputs = n.inputs ∨
        n.action ≠ .delete ∧ Reference.resolve outputs n.inputs = .ok m.inputs) := by
  rcases prepare_cases h with ⟨hdelete, rfl⟩ | ⟨hdelete, inputs, hinputs, rfl⟩
  · exact ⟨⟨rfl, rfl, rfl, rfl, rfl, rfl⟩, rfl, rfl, rfl, Or.inl ⟨hdelete, rfl⟩⟩
  · exact ⟨⟨rfl, rfl, rfl, rfl, rfl, rfl⟩, rfl, rfl, rfl, Or.inr ⟨hdelete, hinputs⟩⟩

/-- A run after a node that needs no change has had its turn. -/
def passOver (now : Instant) (n : InfraNode) (r : Run) : Run :=
  { r with
    graph := r.graph.insertNode { n with status := .completeAt now }
    events := r.events ++ [.unchanged n.id] }

/-- A run after a node was handed to its plugin. -/
def handOver (o : RunOptions) (n : InfraNode) (r : Run) : Run :=
  { r with
    graph := r.graph.insertNode n
    inFlight := r.inFlight ++ [callFor o n]
    events := r.events ++ [.started (callFor o n)] }

/-- A turn completes a node that needs no change, and calls the plugin of any other. -/
theorem turn_eq_ok {outputs : Table Value} {now : Instant} {r next : Run} {n : InfraNode}
    (h : turn o outputs now r n = .ok next) :
    (n.action = .noOp ∧ next = passOver now n r) ∨
      (n.action ≠ .noOp ∧ ∃ m, prepare outputs now n = .ok m ∧ next = handOver o m r) := by
  unfold turn at h
  split at h
  · rename_i hno
    cases h
    exact Or.inl ⟨hno, rfl⟩
  · rename_i hno
    split at h
    · cases h
    · rename_i m hm
      cases h
      exact Or.inr ⟨hno, m, hm, rfl⟩

/-- A turn that fails is that of a node with a reference that is not found. -/
theorem turn_eq_error {outputs : Table Value} {now : Instant} {r : Run} {n : InfraNode} {e : RunError}
    (h : turn o outputs now r n = .error e) :
    n.action ≠ .noOp ∧ n.action ≠ .delete ∧
      ∃ cause, Reference.resolve outputs n.inputs = .error cause ∧ e = .unresolvedReference n.id cause := by
  unfold turn at h
  by_cases hno : n.action = .noOp
  · rw [if_pos hno] at h
    cases h
  · rw [if_neg hno] at h
    by_cases hdelete : n.action = .delete
    · rw [prepare_of_delete outputs now hdelete] at h
      cases h
    · cases hinputs : Reference.resolve outputs n.inputs with
      | ok inputs =>
        rw [prepare_of_resolve hdelete hinputs now] at h
        cases h
      | error cause =>
        rw [prepare_of_error hdelete hinputs now] at h
        cases h
        exact ⟨hno, hdelete, cause, rfl, rfl⟩

/-! ### What has happened -/

theorem calls_of_events {r s : Run} {l : List RunEvent} (h : s.events = r.events ++ l) :
    s.calls = r.calls ++ ({ r with events := l } : Run).calls := by
  rw [calls, calls, calls, h, List.filterMap_append]

theorem results_of_events {r s : Run} {l : List RunEvent} (h : s.events = r.events ++ l) :
    s.results = r.results ++ ({ r with events := l } : Run).results := by
  rw [results, results, results, h, List.filterMap_append]

theorem isInFlight_iff {r : Run} {id : String} : r.isInFlight id = true ↔ ∃ c ∈ r.inFlight, c.id = id := by
  rw [isInFlight, List.any_eq_true]
  exact exists_congr fun c => and_congr_right fun _ => decide_eq_true_iff

theorem calls_passOver (now : Instant) (n : InfraNode) (r : Run) : (passOver now n r).calls = r.calls :=
  (calls_of_events rfl).trans (List.append_nil _)

theorem results_passOver (now : Instant) (n : InfraNode) (r : Run) : (passOver now n r).results = r.results :=
  (results_of_events rfl).trans (List.append_nil _)

theorem calls_handOver (o : RunOptions) (n : InfraNode) (r : Run) :
    (handOver o n r).calls = r.calls ++ [callFor o n] :=
  calls_of_events (l := [.started (callFor o n)]) rfl

theorem results_handOver (o : RunOptions) (n : InfraNode) (r : Run) : (handOver o n r).results = r.results :=
  (results_of_events (l := [.started (callFor o n)]) rfl).trans (List.append_nil _)

theorem events_finish_returned (now : Instant) (c : Call) (response : ApplyResponse) (r : Run) :
    (finish now c (.returned response) r).events = r.events ++ [.finished ⟨c.id, c.action, none⟩] := rfl

theorem events_finish_failed (now : Instant) (c : Call) (e : PluginError) (r : Run) :
    (finish now c (.failed e) r).events = r.events ++ [.finished ⟨c.id, c.action, some e.message⟩] := rfl

theorem calls_finish (now : Instant) (c : Call) (outcome : Outcome) (r : Run) :
    (finish now c outcome r).calls = r.calls := by
  cases outcome with
  | returned response =>
    exact (calls_of_events (events_finish_returned now c response r)).trans (List.append_nil _)
  | failed e => exact (calls_of_events (events_finish_failed now c e r)).trans (List.append_nil _)
  | broken message => rfl

/-- A failure is never forgotten. -/
theorem failure_finish {now : Instant} {c : Call} {outcome : Outcome} {r : Run}
    (h : r.failure.isSome = true) : (finish now c outcome r).failure.isSome = true := by
  cases outcome with
  | returned response => exact h
  | failed e =>
    show (r.failure.or (some (.nodeFailed c.id e.message))).isSome = true
    rw [Option.isSome_or, h]
    rfl
  | broken message => rfl

/-- A call that fails makes the run fail. -/
theorem mem_results_finish {now : Instant} {c : Call} {outcome : Outcome} {r : Run} {x : NodeResult}
    (hx : x ∈ (finish now c outcome r).results) (hfail : x.success = false) :
    x ∈ r.results ∨ (finish now c outcome r).failure.isSome = true := by
  cases outcome with
  | returned response =>
    rw [results_of_events (events_finish_returned now c response r)] at hx
    rcases List.mem_append.1 hx with hx | hx
    · exact Or.inl hx
    · rw [List.mem_singleton.1 hx] at hfail
      cases hfail
  | failed e =>
    right
    show (r.failure.or (some (.nodeFailed c.id e.message))).isSome = true
    rw [Option.isSome_or]
    exact Bool.or_true _
  | broken message => exact Or.inl hx

theorem isInFlight_handOver {o : RunOptions} {n : InfraNode} {r : Run} {id : String} :
    (handOver o n r).isInFlight id = true ↔ r.isInFlight id = true ∨ n.id = id := by
  rw [isInFlight_iff, isInFlight_iff]
  show (∃ c ∈ r.inFlight ++ [callFor o n], c.id = id) ↔ _
  simp only [List.mem_append, List.mem_singleton, or_and_right, exists_or, exists_eq_left]
  rfl

theorem isInFlight_filter_iff {r s : Run} {c : Call} (h : s.inFlight = r.inFlight.filter (·.id ≠ c.id))
    {id : String} : s.isInFlight id = true ↔ r.isInFlight id = true ∧ id ≠ c.id := by
  rw [isInFlight_iff, isInFlight_iff, h]
  constructor
  · rintro ⟨d, hd, rfl⟩
    obtain ⟨hd, hne⟩ := List.mem_filter.1 hd
    exact ⟨⟨d, hd, rfl⟩, of_decide_eq_true hne⟩
  · rintro ⟨⟨d, hd, rfl⟩, hne⟩
    exact ⟨d, List.mem_filter.2 ⟨hd, decide_eq_true hne⟩, rfl⟩

/-! ### The invariant -/

/-- What holds at every moment of a run of a graph. -/
structure Inv (o : RunOptions) (g : Infrastructure) (p : Point) : Prop where
  edges : p.run.graph.edges = g.edges
  ids : p.run.graph.ids = g.ids
  same : ∀ m ∈ p.run.graph.nodes, ∃ n ∈ g.nodes, SameChange n m
  bound : p.run.inFlight.length ≤ o.limit
  distinct : (p.run.inFlight.map Call.id).Nodup
  flying : ∀ c ∈ p.run.inFlight, ∃ m ∈ p.run.graph.nodes, m.id = c.id ∧ m.isComplete = false
  running : p.queue ≠ [] → p.run.failure = none
  queue_nodup : (p.queue.map InfraNode.id).Nodup
  queued : ∀ n ∈ p.queue, n ∈ p.run.graph.nodes ∧ n.isComplete = false ∧
    p.run.isInFlight n.id = false ∧ isUnblocked p.run.graph n.id = true
  calls_nodup : (p.run.calls.map Call.id).Nodup
  called : ∀ c ∈ p.run.calls, ∃ n ∈ g.nodes, n.id = c.id ∧ n.action = c.action ∧ n.action ≠ .noOp
  settled : p.run.failure = none → ∀ c ∈ p.run.calls,
    p.run.isInFlight c.id = true ∨ isCompleteId p.run.graph c.id = true
  failed : ∀ x ∈ p.run.results, x.success = false → p.run.failure.isSome = true

theorem Inv.start (o : RunOptions) (g : Infrastructure) : Inv o g (Point.start g) where
  edges := rfl
  ids := rfl
  same := fun m hm => ⟨m, hm, SameChange.refl m⟩
  bound := Nat.zero_le _
  distinct := List.nodup_nil
  flying := fun _ h => by cases h
  running := fun h => absurd rfl h
  queue_nodup := List.nodup_nil
  queued := fun _ h => by cases h
  calls_nodup := List.nodup_nil
  called := fun _ h => by cases h
  settled := fun _ _ h => by cases h
  failed := fun _ h => by cases h

namespace Inv

variable {r : Run} {outputs : Table Value} {n : InfraNode} {rest : List InfraNode}

/-- Every node of the plan is there in some stage. -/
theorem exists_later {p : Point} (hp : Inv o g p) (hn : n ∈ g.nodes) : ∃ m ∈ p.run.graph.nodes, SameChange n m := by
  have hid : n.id ∈ p.run.graph.ids := by
    rw [hp.ids]
    exact Graph.id_mem_ids hn
  obtain ⟨m, hm, hmn⟩ := Graph.mem_ids_iff.1 hid
  obtain ⟨k, hk, hkm⟩ := hp.same m hm
  rw [← Graph.eq_of_id_eq hk hn (hkm.id.symm.trans hmn)]
  exact ⟨m, hm, hkm⟩

theorem collect (hp : Inv o g ⟨r, outputs, []⟩) (running : r.failure = none) :
    Inv o g ⟨r, Infrastructure.outputs r.graph, waiting r⟩ :=
  { hp with
    running := fun _ => running
    queue_nodup := by
      have hids : ((r.graph.nodes.filter fun n => !n.isComplete && isUnblocked r.graph n.id).map
          InfraNode.id).Nodup := List.Nodup.sublist (List.filter_sublist.map _) r.graph.ids_nodup
      have hready : ((ready r.graph).map InfraNode.id).Nodup := ((perm_byTurn _).map _).nodup_iff.2 hids
      exact hready.sublist (List.filter_sublist.map _)
    queued := by
      intro n hn
      obtain ⟨hready, hidle⟩ := List.mem_filter.1 hn
      obtain ⟨hmem, hc, hu⟩ := mem_ready.1 hready
      exact ⟨hmem, hc, by simpa using hidle, hu⟩ }

/-- A later stage of a node is a later stage of the node of the plan. -/
theorem same_of_replaces {p : Point} (hp : Inv o g p) {h : Infrastructure} {n m : InfraNode}
    (hr : Replaces p.run.graph h n m) : ∀ k ∈ h.nodes, ∃ j ∈ g.nodes, SameChange j k := by
  intro k hk
  obtain ⟨l, hl, hlk⟩ := hr.exists_before hk
  obtain ⟨j, hj, hjl⟩ := hp.same l hl
  exact ⟨j, hj, hjl.trans hlk⟩

/-- The first node of the queue becomes a later stage, and those behind it do not notice. -/
theorem queued_of_replaces (hp : Inv o g ⟨r, outputs, n :: rest⟩) {h : Infrastructure} {m : InfraNode}
    (hr : Replaces r.graph h n m) {k : InfraNode} (hk : k ∈ rest) :
    k ∈ h.nodes ∧ k.isComplete = false ∧ r.isInFlight k.id = false ∧ k.id ≠ n.id ∧
      isUnblocked h k.id = true := by
  obtain ⟨-, hc, -, -⟩ := hp.queued n List.mem_cons_self
  obtain ⟨hkmem, hkc, hkidle, hku⟩ := hp.queued k (List.mem_cons_of_mem n hk)
  have hne : k.id ≠ n.id := by
    intro e
    exact (List.nodup_cons.1 hp.queue_nodup).1 (List.mem_map.2 ⟨k, hk, e⟩)
  exact ⟨hr.mem_of_ne hkmem hne, hkc, hkidle, hne, hr.isUnblocked_of hc hku⟩

/-- Calls in flight are about other nodes than the first of the queue. -/
theorem flying_of_replaces (hp : Inv o g ⟨r, outputs, n :: rest⟩) {h : Infrastructure} {m : InfraNode}
    (hr : Replaces r.graph h n m) {c : Call} (hc : c ∈ r.inFlight) :
    ∃ k ∈ h.nodes, k.id = c.id ∧ k.isComplete = false := by
  obtain ⟨-, -, hidle, -⟩ := hp.queued n List.mem_cons_self
  obtain ⟨k, hk, hid, hkc⟩ := hp.flying c hc
  refine ⟨k, hr.mem_of_ne hk fun e => ?_, hid, hkc⟩
  have hflies : r.isInFlight n.id = true := isInFlight_iff.2 ⟨c, hc, hid.symm.trans e⟩
  exact absurd hflies (by rw [hidle]; exact Bool.false_ne_true)

theorem take_unchanged (hp : Inv o g ⟨r, outputs, n :: rest⟩) (now : Instant) :
    Inv o g ⟨passOver now n r, outputs, rest⟩ := by
  obtain ⟨hmem, hc, -, -⟩ := hp.queued n List.mem_cons_self
  have hr : Replaces r.graph (passOver now n r).graph n _ :=
    replaces_insertNode hmem ⟨rfl, rfl, rfl, rfl, rfl, rfl⟩
  exact {
    edges := hr.edges.trans hp.edges
    ids := hr.ids.trans hp.ids
    same := hp.same_of_replaces hr
    bound := hp.bound
    distinct := hp.distinct
    flying := fun c hc => hp.flying_of_replaces hr hc
    running := fun _ => hp.running (List.cons_ne_nil _ _)
    queue_nodup := (List.nodup_cons.1 hp.queue_nodup).2
    queued := by
      intro k hk
      obtain ⟨hkmem, hkc, hkidle, -, hku⟩ := hp.queued_of_replaces hr hk
      exact ⟨hkmem, hkc, hkidle, hku⟩
    calls_nodup := by
      rw [calls_passOver]
      exact hp.calls_nodup
    called := by
      rw [calls_passOver]
      exact hp.called
    settled := by
      rw [calls_passOver]
      exact fun hf c hcall => (hp.settled hf c hcall).imp_right (hr.isCompleteId_of hc)
    failed := by
      rw [results_passOver]
      exact hp.failed }

/-- The first node of the queue was not called before. -/
theorem not_called (hp : Inv o g ⟨r, outputs, n :: rest⟩) : n.id ∉ r.calls.map Call.id := by
  obtain ⟨hmem, hc, hidle, -⟩ := hp.queued n List.mem_cons_self
  intro h
  obtain ⟨c, hcall, hid⟩ := List.mem_map.1 h
  rcases hp.settled (hp.running (List.cons_ne_nil _ _)) c hcall with hflies | hdone
  · rw [hid, hidle] at hflies
    cases hflies
  · rw [hid, isCompleteId_of_mem hmem, hc] at hdone
    cases hdone

theorem take_called (hp : Inv o g ⟨r, outputs, n :: rest⟩) (room : r.inFlight.length < o.limit)
    (hno : n.action ≠ .noOp) {seen : Table Value} {now : Instant} {m : InfraNode}
    (hm : prepare seen now n = .ok m) : Inv o g ⟨handOver o m r, outputs, rest⟩ := by
  obtain ⟨hmem, hc, hidle, -⟩ := hp.queued n List.mem_cons_self
  obtain ⟨hsame, hmc, -, -, -⟩ := prepare_eq_ok hm
  have hr : Replaces r.graph (handOver o m r).graph n m := replaces_insertNode hmem hsame
  have hid : (callFor o m).id = n.id := hsame.id
  exact {
    edges := hr.edges.trans hp.edges
    ids := hr.ids.trans hp.ids
    same := hp.same_of_replaces hr
    bound := by
      show (r.inFlight ++ [callFor o m]).length ≤ o.limit
      rw [List.length_append]
      exact room
    distinct := by
      show ((r.inFlight ++ [callFor o m]).map Call.id).Nodup
      rw [List.map_append, List.map_singleton, hid, ← List.concat_eq_append]
      refine hp.distinct.concat fun hn => ?_
      obtain ⟨c, hc, hcid⟩ := List.mem_map.1 hn
      rw [isInFlight_iff.2 ⟨c, hc, hcid⟩] at hidle
      cases hidle
    flying := by
      intro c hc
      rcases List.mem_append.1 hc with hc | hc
      · exact hp.flying_of_replaces hr hc
      · rw [List.mem_singleton.1 hc, hid]
        exact ⟨m, hr.new_mem, hsame.id, hmc⟩
    running := fun _ => hp.running (List.cons_ne_nil _ _)
    queue_nodup := (List.nodup_cons.1 hp.queue_nodup).2
    queued := by
      intro k hk
      obtain ⟨hkmem, hkc, hkidle, hne, hku⟩ := hp.queued_of_replaces hr hk
      refine ⟨hkmem, hkc, ?_, hku⟩
      rw [Bool.eq_false_iff, Ne, isInFlight_handOver, not_or, hkidle]
      exact ⟨Bool.false_ne_true, fun e => hne (e.symm.trans hsame.id)⟩
    calls_nodup := by
      rw [calls_handOver, List.map_append, List.map_singleton, hid, ← List.concat_eq_append]
      exact hp.calls_nodup.concat hp.not_called
    called := by
      rw [calls_handOver]
      intro c hcall
      rcases List.mem_append.1 hcall with hcall | hcall
      · exact hp.called c hcall
      · obtain ⟨j, hj, hjn⟩ := hp.same n hmem
        rw [List.mem_singleton.1 hcall, hid]
        refine ⟨j, hj, hjn.id.symm, hjn.action.symm.trans hsame.action.symm, ?_⟩
        rw [← hjn.action]
        exact hno
    settled := by
      rw [calls_handOver]
      intro hf c hcall
      rcases List.mem_append.1 hcall with hcall | hcall
      · exact (hp.settled hf c hcall).imp (fun h => isInFlight_handOver.2 (Or.inl h)) (hr.isCompleteId_of hc)
      · rw [List.mem_singleton.1 hcall]
        exact Or.inl (isInFlight_handOver.2 (Or.inr rfl))
    failed := by
      rw [results_handOver]
      exact hp.failed }

/-- A run that fails drops its queue and may start nothing more, so little has to be kept. -/
theorem fail (hp : Inv o g ⟨r, outputs, n :: rest⟩) (e : RunError) :
    Inv o g ⟨{ r with failure := some e }, outputs, []⟩ :=
  { hp with
    running := fun h => absurd rfl h
    queue_nodup := List.nodup_nil
    queued := fun _ h => by cases h
    settled := fun h => by cases h
    failed := fun _ _ _ => rfl }

/-- A returned call puts a later stage in the place of its node, complete unless the run has failed by then; a
call that broke off leaves the graph alone. -/
theorem finish_cases (hp : Inv o g ⟨r, outputs, []⟩) {c : Call} (hc : c ∈ r.inFlight) (now : Instant)
    (outcome : Outcome) :
    ((Run.finish now c outcome r).graph = r.graph ∧ (Run.finish now c outcome r).inFlight = [] ∧
        (Run.finish now c outcome r).failure.isSome = true) ∨
      ∃ n m, Replaces r.graph (Run.finish now c outcome r).graph n m ∧ n.id = c.id ∧ n.isComplete = false ∧
        m.inputs = n.inputs ∧ (Run.finish now c outcome r).inFlight = r.inFlight.filter (·.id ≠ c.id) ∧
        ((Run.finish now c outcome r).failure = none → r.failure = none ∧ m.isComplete = true) := by
  obtain ⟨n, hn, hid, hnc⟩ := hp.flying c hc
  have hreplaces : ∀ (f : InfraNode → InfraNode) (h : ∀ k, (f k).id = k.id), (∀ k, SameChange k (f k)) →
      Replaces r.graph (r.graph.update c.id f h) n (f n) := by
    intro f h hf
    have hupdate := replaces_update hn h (hf n)
    rw [hid] at hupdate
    exact hupdate
  cases outcome with
  | returned response =>
    have hr : Replaces r.graph (Run.finish now c (.returned response) r).graph n _ :=
      hreplaces _ (by exact fun _ => rfl) (by exact fun _ => ⟨rfl, rfl, rfl, rfl, rfl, rfl⟩)
    exact Or.inr ⟨n, _, hr, hid, hnc, rfl, rfl, fun h => ⟨h, rfl⟩⟩
  | failed e =>
    have hr : Replaces r.graph (Run.finish now c (.failed e) r).graph n _ :=
      hreplaces _ (by exact fun _ => rfl) (by exact fun _ => ⟨rfl, rfl, rfl, rfl, rfl, rfl⟩)
    refine Or.inr ⟨n, _, hr, hid, hnc, rfl, rfl, fun h => ?_⟩
    have hsome : r.failure.or (some (.nodeFailed c.id e.message)) = none := h
    simp at hsome
  | broken message => exact Or.inl ⟨rfl, rfl, rfl⟩

theorem finish (hp : Inv o g ⟨r, outputs, []⟩) {c : Call} (hc : c ∈ r.inFlight) (now : Instant)
    (outcome : Outcome) : Inv o g ⟨Run.finish now c outcome r, outputs, []⟩ := by
  have hfailed : ∀ x ∈ (Run.finish now c outcome r).results, x.success = false →
      (Run.finish now c outcome r).failure.isSome = true := by
    intro x hx hfail
    exact (mem_results_finish hx hfail).elim (fun hx => failure_finish (hp.failed x hx hfail)) id
  have hcalled : ∀ d ∈ (Run.finish now c outcome r).calls,
      ∃ n ∈ g.nodes, n.id = d.id ∧ n.action = d.action ∧ n.action ≠ .noOp := by
    rw [calls_finish]
    exact hp.called
  have hcalls : ((Run.finish now c outcome r).calls.map Call.id).Nodup := by
    rw [calls_finish]
    exact hp.calls_nodup
  rcases hp.finish_cases hc now outcome with ⟨hgraph, hflight, hf⟩ | ⟨n, m, hr, hid, hnc, -, hflight, hf⟩
  · exact {
      edges := (congrArg Graph.edges hgraph).trans hp.edges
      ids := (congrArg Graph.ids hgraph).trans hp.ids
      same := by
        rw [hgraph]
        exact hp.same
      bound := by
        rw [hflight]
        exact Nat.zero_le _
      distinct := by
        rw [hflight]
        exact List.nodup_nil
      flying := by
        rw [hflight]
        exact fun _ h => by cases h
      running := fun h => absurd rfl h
      queue_nodup := List.nodup_nil
      queued := fun _ h => by cases h
      calls_nodup := hcalls
      called := hcalled
      settled := fun hnone => by
        rw [hnone] at hf
        cases hf
      failed := hfailed }
  · have hsub : (Run.finish now c outcome r).inFlight.Sublist r.inFlight := by
      rw [hflight]
      exact List.filter_sublist
    exact {
      edges := hr.edges.trans hp.edges
      ids := hr.ids.trans hp.ids
      same := hp.same_of_replaces hr
      bound := Nat.le_trans hsub.length_le hp.bound
      distinct := hp.distinct.sublist (hsub.map _)
      flying := by
        intro d hd
        rw [hflight] at hd
        obtain ⟨hd, hne⟩ := List.mem_filter.1 hd
        obtain ⟨k, hk, hkd, hkc⟩ := hp.flying d hd
        refine ⟨k, hr.mem_of_ne hk fun e => ?_, hkd, hkc⟩
        exact of_decide_eq_true hne (hkd.symm.trans (e.trans hid))
      running := fun h => absurd rfl h
      queue_nodup := List.nodup_nil
      queued := fun _ h => by cases h
      calls_nodup := hcalls
      called := hcalled
      settled := by
        rw [calls_finish]
        intro hnone d hd
        obtain ⟨hrunning, hmc⟩ := hf hnone
        by_cases hdc : d.id = c.id
        · -- the node of the call that returns is complete now
          refine Or.inr (isCompleteId_iff.2 ⟨m, hr.new_mem, ?_, hmc⟩)
          rw [hr.same.id, hid, hdc]
        · exact (hp.settled hrunning d hd).imp (fun h => (isInFlight_filter_iff hflight).2 ⟨h, hdc⟩)
            (hr.isCompleteId_of hnc)
      failed := hfailed }

/-- **Every move keeps the invariant.** -/
theorem move {p q : Point} (hp : Inv o g p) (hm : Move o p q) : Inv o g q := by
  cases hm with
  | collect running => exact hp.collect running
  | take room taken =>
    rcases turn_eq_ok taken with ⟨-, rfl⟩ | ⟨hno, m, hm, rfl⟩
    · exact hp.take_unchanged _
    · exact hp.take_called room hno hm
  | refuse room refused => exact hp.fail _
  | close full =>
    exact { hp with
      running := fun h => absurd rfl h
      queue_nodup := List.nodup_nil
      queued := fun _ h => by cases h }
  | report => exact { hp with }
  | finish flying now outcome => exact hp.finish flying now outcome

/-- **The invariant holds whenever a run has got anywhere.** -/
theorem of_reaches {p q : Point} (hp : Inv o g p) (h : Reaches o p q) : Inv o g q := by
  induction h with
  | refl => exact hp
  | tail _ hm ih => exact ih.move hm

theorem of_start {q : Point} (h : Reaches o (Point.start g) q) : Inv o g q := (Inv.start o g).of_reaches h

end Inv

end Groundwork.Run
