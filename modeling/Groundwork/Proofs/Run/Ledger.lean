import Groundwork.Proofs.Run.Inputs
import Groundwork.Proofs.Run.Safety
import Mathlib.Data.List.Perm.Subperm

/-!
# What a run has done so far

The events of a run tell what has become of each node.  A call is in flight, or it has one result, or it broke
off; a node that is complete was so from the beginning, needed no change, or has a result that says so; and a
failure says where it comes from.

Main statements: each move keeps this account (`Ledger.move`), there are never more results and calls in
flight than nodes (`Ledger.length_le`), and a reference that is not found was refused to a node when it had its
turn (`exists_refusal`).
-/

namespace Groundwork.Run

open Relation
open Infrastructure

variable {o : RunOptions} {g : Infrastructure} {p q : Point}

/-! ### Returned calls -/

/-- What a call reports when it comes to its end; one that breaks off reports nothing. -/
def report? (c : Call) : Outcome → Option NodeResult
  | .returned _ => some ⟨c.id, c.action, none⟩
  | .failed e => some ⟨c.id, c.action, some e.message⟩
  | .broken _ => none

/-- A node after its plugin succeeded. -/
def answered (response : ApplyResponse) (now : Instant) (n : InfraNode) : InfraNode :=
  { n with
    outputs := some response.outputs
    state := response.state
    status := n.status.moveTo .complete none now }

/-- A node after its plugin failed. -/
def faulted (e : PluginError) (now : Instant) (n : InfraNode) : InfraNode :=
  { n with status := n.status.moveTo .error (some e.message) now }

theorem results_finish (now : Instant) (c : Call) (outcome : Outcome) (r : Run) :
    (finish now c outcome r).results = r.results ++ (report? c outcome).toList := by
  cases outcome with
  | returned response => exact results_of_events (events_finish_returned now c response r)
  | failed e => exact results_of_events (events_finish_failed now c e r)
  | broken message => exact (List.append_nil _).symm

theorem results_subset_finish (now : Instant) (c : Call) (outcome : Outcome) (r : Run) :
    r.results ⊆ (finish now c outcome r).results := by
  rw [results_finish]
  exact List.subset_append_left _ _

/-- What is in flight after a call has returned was so before, and is about another node. -/
theorem mem_inFlight_finish {now : Instant} {c d : Call} {outcome : Outcome} {r : Run}
    (h : d ∈ (finish now c outcome r).inFlight) : d ∈ r.inFlight ∧ d.id ≠ c.id := by
  cases outcome with
  | returned response =>
    obtain ⟨hd, hne⟩ := List.mem_filter.1 h
    exact ⟨hd, of_decide_eq_true hne⟩
  | failed e =>
    obtain ⟨hd, hne⟩ := List.mem_filter.1 h
    exact ⟨hd, of_decide_eq_true hne⟩
  | broken message => cases h

theorem inFlight_finish_sublist (now : Instant) (c : Call) (outcome : Outcome) (r : Run) :
    (finish now c outcome r).inFlight.Sublist r.inFlight := by
  cases outcome with
  | returned response => exact List.filter_sublist
  | failed e => exact List.filter_sublist
  | broken message => exact List.nil_sublist _

theorem replaces_returned {r : Run} {c : Call} {n : InfraNode} (hn : n ∈ r.graph.nodes) (hid : n.id = c.id)
    (now : Instant) (response : ApplyResponse) :
    Replaces r.graph (finish now c (.returned response) r).graph n (answered response now n) := by
  have h := replaces_update hn (f := answered response now) (fun _ => rfl) ⟨rfl, rfl, rfl, rfl, rfl, rfl⟩
  rw [hid] at h
  exact h

theorem replaces_failed {r : Run} {c : Call} {n : InfraNode} (hn : n ∈ r.graph.nodes) (hid : n.id = c.id)
    (now : Instant) (e : PluginError) :
    Replaces r.graph (finish now c (.failed e) r).graph n (faulted e now n) := by
  have h := replaces_update hn (f := faulted e now) (fun _ => rfl) ⟨rfl, rfl, rfl, rfl, rfl, rfl⟩
  rw [hid] at h
  exact h

/-! ### The account -/

/-- Whether an account bears a failure out.  What a reference was refused for, no event tells. -/
def Explains (r : Run) : RunError → Prop
  | .unresolvedReference _ _ => True
  | .nodeFailed id message => ∃ action, ⟨id, action, some message⟩ ∈ r.results
  | .taskFailed _ => r.inFlight = [] ∧ ∃ c ∈ r.calls, ∀ x ∈ r.results, x.id ≠ c.id
  | .invariantViolation _ => False

/-- What the events of a run of a graph tell of its nodes. -/
structure Ledger (g : Infrastructure) (p : Point) : Prop where
  /-- What needs no change keeps what it had. -/
  kept : ∀ m ∈ p.run.graph.nodes, m.action = .noOp →
    ∃ n ∈ g.nodes, SameChange n m ∧ m.inputs = n.inputs ∧ m.outputs = n.outputs ∧ m.state = n.state
  /-- What is in flight was called. -/
  flying : p.run.inFlight ⊆ p.run.calls
  /-- What was called was not complete. -/
  called : ∀ c ∈ p.run.calls, ∀ n ∈ g.nodes, n.id = c.id → n.isComplete = false
  /-- Each call is in flight or has one result, not both. -/
  distinct : (p.run.results.map NodeResult.id ++ p.run.inFlight.map Call.id).Nodup
  /-- What has a result was called. -/
  reported : ∀ x ∈ p.run.results, ∃ c ∈ p.run.calls, c.id = x.id ∧ c.action = x.action
  /-- What is complete was so from the beginning, needed no change, or its plugin succeeded and gave outputs. -/
  done : ∀ m ∈ p.run.graph.nodes, m.isComplete = true →
    m ∈ g.nodes ∨ m.action = .noOp ∨ (⟨m.id, m.action, none⟩ ∈ p.run.results ∧ m.outputs.isSome = true)
  /-- A failure comes from what has happened. -/
  explained : ∀ e, p.run.failure = some e → Explains p.run e

theorem Ledger.start (g : Infrastructure) : Ledger g (Point.start g) where
  kept := fun m hm _ => ⟨m, hm, SameChange.refl m, rfl, rfl, rfl⟩
  flying := fun _ h => by cases h
  called := fun _ h => by cases h
  distinct := List.nodup_nil
  reported := fun _ h => by cases h
  done := fun _ hm _ => Or.inl hm
  explained := fun _ h => by cases h

namespace Ledger

variable {r : Run} {outputs : Table Value} {n : InfraNode} {rest : List InfraNode}

/-- As long as the queue holds nodes nothing has failed. -/
theorem failure_ne_of_queued (hp : Inv o g ⟨r, outputs, n :: rest⟩) (e : RunError) : r.failure ≠ some e := by
  have hrunning : r.failure = none := hp.running (List.cons_ne_nil _ _)
  rw [hrunning]
  exact nofun

theorem pass (hl : Ledger g ⟨r, outputs, n :: rest⟩) (hp : Inv o g ⟨r, outputs, n :: rest⟩)
    (hno : n.action = .noOp) (now : Instant) : Ledger g ⟨passOver now n r, outputs, rest⟩ := by
  obtain ⟨hn, -, -, -⟩ := hp.queued n List.mem_cons_self
  have hr : Replaces r.graph (passOver now n r).graph n _ :=
    replaces_insertNode hn ⟨rfl, rfl, rfl, rfl, rfl, rfl⟩
  exact {
    kept := by
      intro m hm hmno
      rcases (hr.nodes m).1 hm with rfl | ⟨hm, -⟩
      · obtain ⟨k, hk, hsame, hi, ho, hs⟩ := hl.kept n hn hno
        exact ⟨k, hk, hsame.trans hr.same, hi, ho, hs⟩
      · exact hl.kept m hm hmno
    flying := by
      rw [calls_passOver]
      exact hl.flying
    called := by
      rw [calls_passOver]
      exact hl.called
    distinct := by
      rw [results_passOver]
      exact hl.distinct
    reported := by
      rw [results_passOver, calls_passOver]
      exact hl.reported
    done := by
      rw [results_passOver]
      intro m hm hmc
      rcases (hr.nodes m).1 hm with rfl | ⟨hm, -⟩
      · exact Or.inr (Or.inl hno)
      · exact hl.done m hm hmc
    explained := fun e he => absurd he (failure_ne_of_queued hp e) }

theorem take (hl : Ledger g ⟨r, outputs, n :: rest⟩) (hp : Inv o g ⟨r, outputs, n :: rest⟩)
    (ht : Traced g ⟨r, outputs, n :: rest⟩) (hno : n.action ≠ .noOp) {seen : Table Value} {now : Instant}
    {m : InfraNode} (hm : prepare seen now n = .ok m) : Ledger g ⟨handOver o m r, outputs, rest⟩ := by
  obtain ⟨hn, hnc, -, -⟩ := hp.queued n List.mem_cons_self
  obtain ⟨hsame, hmc, -, -, -⟩ := prepare_eq_ok hm
  have hr : Replaces r.graph (handOver o m r).graph n m := replaces_insertNode hn hsame
  have hid : (callFor o m).id = n.id := hsame.id
  exact {
    kept := by
      intro k hk hkno
      rcases (hr.nodes k).1 hk with rfl | ⟨hk, -⟩
      · exact absurd (hsame.action.symm.trans hkno) hno
      · exact hl.kept k hk hkno
    flying := by
      rw [calls_handOver]
      exact List.append_subset.2 ⟨fun c hc => List.mem_append_left _ (hl.flying hc), List.subset_append_right _ _⟩
    called := by
      rw [calls_handOver]
      intro c hc k hk hkc
      rcases List.mem_append.1 hc with hc | hc
      · exact hl.called c hc k hk hkc
      · -- the node of the queue is the one of the plan, so no other has its id
        rw [List.mem_singleton.1 hc, hid] at hkc
        rw [Graph.eq_of_id_eq hk (ht.mem_of_queued hp List.mem_cons_self) hkc]
        exact hnc
    distinct := by
      rw [results_handOver]
      show (_ ++ (r.inFlight ++ [callFor o m]).map Call.id).Nodup
      rw [List.map_append, List.map_singleton, hid, ← List.append_assoc, ← List.concat_eq_append]
      refine hl.distinct.concat fun hmem => hp.not_called ?_
      rcases List.mem_append.1 hmem with hmem | hmem
      · obtain ⟨x, hx, hxid⟩ := List.mem_map.1 hmem
        obtain ⟨c, hc, hcid, -⟩ := hl.reported x hx
        exact List.mem_map.2 ⟨c, hc, hcid.trans hxid⟩
      · obtain ⟨c, hc, hcid⟩ := List.mem_map.1 hmem
        exact List.mem_map.2 ⟨c, hl.flying hc, hcid⟩
    reported := by
      rw [results_handOver, calls_handOver]
      intro x hx
      obtain ⟨c, hc, hcx⟩ := hl.reported x hx
      exact ⟨c, List.mem_append_left _ hc, hcx⟩
    done := by
      rw [results_handOver]
      intro k hk hkc
      rcases (hr.nodes k).1 hk with rfl | ⟨hk, -⟩
      · rw [hmc] at hkc
        cases hkc
      · exact hl.done k hk hkc
    explained := fun e he => absurd he (failure_ne_of_queued hp e) }

/-- What a returned call reports, and what is still in flight, are about different nodes. -/
theorem distinct_finish (hl : Ledger g ⟨r, outputs, []⟩) {c : Call} (hc : c ∈ r.inFlight) (now : Instant)
    (outcome : Outcome) : ((Run.finish now c outcome r).results.map NodeResult.id ++
      (Run.finish now c outcome r).inFlight.map Call.id).Nodup := by
  obtain ⟨hresults, hflight, hapart⟩ := List.nodup_append.1 hl.distinct
  have hnew : ∀ x ∈ report? c outcome, x.id = c.id := by
    intro x hx
    cases outcome with
    | returned response =>
      cases hx
      rfl
    | failed e =>
      cases hx
      rfl
    | broken message => cases hx
  have hold : ∀ x ∈ r.results, ∀ d ∈ r.inFlight, x.id ≠ d.id := fun x hx d hd =>
    hapart _ (List.mem_map_of_mem hx) _ (List.mem_map_of_mem hd)
  refine List.nodup_append.2 ⟨?_, hflight.sublist ((inFlight_finish_sublist now c outcome r).map _), ?_⟩
  · rw [results_finish, List.map_append]
    cases hreport : report? c outcome with
    | none => exact (List.append_nil _).symm ▸ hresults
    | some x =>
      show (_ ++ [x.id]).Nodup
      rw [← List.concat_eq_append, hnew x hreport]
      refine hresults.concat fun hmem => ?_
      obtain ⟨y, hy, hyc⟩ := List.mem_map.1 hmem
      exact hold y hy c hc hyc
  · intro a ha b hb
    obtain ⟨x, hx, rfl⟩ := List.mem_map.1 ha
    obtain ⟨d, hd, rfl⟩ := List.mem_map.1 hb
    obtain ⟨hd, hdc⟩ := mem_inFlight_finish hd
    rw [results_finish] at hx
    rcases List.mem_append.1 hx with hx | hx
    · exact hold x hx d hd
    · rw [hnew x (Option.mem_toList.1 hx)]
      exact hdc.symm

theorem explains_finish (hl : Ledger g ⟨r, outputs, []⟩) {c : Call} (hc : c ∈ r.inFlight) (now : Instant)
    (outcome : Outcome) {e : RunError} (he : (Run.finish now c outcome r).failure = some e) :
    Explains (Run.finish now c outcome r) e := by
  obtain ⟨-, -, hapart⟩ := List.nodup_append.1 hl.distinct
  -- a failure that was there stays explained: one that ended the run leaves no call to return
  have hold : ∀ e, r.failure = some e → Explains (Run.finish now c outcome r) e := by
    intro e he
    have hexplained := hl.explained e he
    cases e with
    | unresolvedReference id cause => trivial
    | nodeFailed id message =>
      obtain ⟨action, hx⟩ := hexplained
      exact ⟨action, results_subset_finish now c outcome r hx⟩
    | taskFailed message =>
      have hnone : r.inFlight = [] := hexplained.1
      rw [hnone] at hc
      cases hc
    | invariantViolation pending => exact hexplained.elim
  cases outcome with
  | returned response => exact hold e he
  | failed f =>
    have hor : r.failure.or (some (.nodeFailed c.id f.message)) = some e := he
    cases hfailure : r.failure with
    | some e' =>
      rw [hfailure, Option.some_or] at hor
      cases hor
      exact hold e hfailure
    | none =>
      rw [hfailure, Option.none_or] at hor
      cases hor
      refine ⟨c.action, ?_⟩
      rw [results_finish]
      exact List.mem_append_right _ (List.mem_singleton.2 rfl)
  | broken message =>
    cases he
    exact ⟨rfl, c, hl.flying hc, fun x hx => hapart _ (List.mem_map_of_mem hx) _ (List.mem_map_of_mem hc)⟩

theorem finish (hl : Ledger g ⟨r, outputs, []⟩) (hp : Inv o g ⟨r, outputs, []⟩) {c : Call} (hc : c ∈ r.inFlight)
    (now : Instant) (outcome : Outcome) : Ledger g ⟨Run.finish now c outcome r, outputs, []⟩ := by
  obtain ⟨n, hn, hid, hnc⟩ := hp.flying c hc
  -- the node that a call is about needs a change
  obtain ⟨haction, hno⟩ : n.action = c.action ∧ n.action ≠ .noOp := by
    obtain ⟨k, hk, hkc, hka, hkno⟩ := hp.called c (hl.flying hc)
    obtain ⟨j, hj, hjn⟩ := hp.same n hn
    have hjk : j = k := Graph.eq_of_id_eq hj hk (hjn.id.symm.trans (hid.trans hkc.symm))
    rw [hjn.action, hjk]
    exact ⟨hka, hkno⟩
  have hnode : ((Run.finish now c outcome r).graph = r.graph) ∨
      ∃ m, Replaces r.graph (Run.finish now c outcome r).graph n m ∧
        (m.isComplete = true →
          ⟨m.id, m.action, none⟩ ∈ (Run.finish now c outcome r).results ∧ m.outputs.isSome = true) := by
    cases outcome with
    | returned response =>
      refine Or.inr ⟨_, replaces_returned hn hid now response, fun _ => ⟨?_, rfl⟩⟩
      rw [results_finish]
      refine List.mem_append_right _ (List.mem_singleton.2 ?_)
      rw [← hid, ← haction]
      rfl
    | failed e => exact Or.inr ⟨_, replaces_failed hn hid now e, fun h => by cases h⟩
    | broken message => exact Or.inl rfl
  exact {
    kept := by
      intro m hm hmno
      rcases hnode with hgraph | ⟨k, hr, -⟩
      · exact hl.kept m (hgraph ▸ hm) hmno
      · rcases (hr.nodes m).1 hm with rfl | ⟨hm, -⟩
        · exact absurd (hr.same.action.symm.trans hmno) hno
        · exact hl.kept m hm hmno
    flying := by
      rw [calls_finish]
      exact fun d hd => hl.flying (mem_inFlight_finish hd).1
    called := by
      rw [calls_finish]
      exact hl.called
    distinct := hl.distinct_finish hc now outcome
    reported := by
      rw [results_finish, calls_finish]
      intro x hx
      rcases List.mem_append.1 hx with hx | hx
      · exact hl.reported x hx
      · refine ⟨c, hl.flying hc, ?_⟩
        cases outcome with
        | returned response =>
          cases List.mem_singleton.1 hx
          exact ⟨rfl, rfl⟩
        | failed e =>
          cases List.mem_singleton.1 hx
          exact ⟨rfl, rfl⟩
        | broken message => cases hx
    done := by
      have hold : ∀ m ∈ r.graph.nodes, m.isComplete = true → m ∈ g.nodes ∨ m.action = .noOp ∨
          (⟨m.id, m.action, none⟩ ∈ (Run.finish now c outcome r).results ∧ m.outputs.isSome = true) :=
        fun m hm hmc => (hl.done m hm hmc).imp_right
          (Or.imp_right (And.imp_left (results_subset_finish now c outcome r ·)))
      intro m hm hmc
      rcases hnode with hgraph | ⟨k, hr, hdone⟩
      · exact hold m (hgraph ▸ hm) hmc
      · rcases (hr.nodes m).1 hm with rfl | ⟨hm, -⟩
        · exact Or.inr (Or.inr (hdone hmc))
        · exact hold m hm hmc
    explained := fun e he => hl.explains_finish hc now outcome he }

/-- **Every move keeps the account.** -/
theorem move (hl : Ledger g p) (hp : Inv o g p) (ht : Traced g p) (hm : Move o p q) : Ledger g q := by
  cases hm with
  | collect running => exact { hl with }
  | take room taken =>
    rcases turn_eq_ok taken with ⟨hno, rfl⟩ | ⟨hno, m, hm, rfl⟩
    · exact hl.pass hp hno _
    · exact hl.take hp ht hno hm
  | refuse room refused =>
    obtain ⟨-, -, cause, -, rfl⟩ := turn_eq_error refused
    refine { hl with explained := fun e he => ?_ }
    cases he
    trivial
  | close full => exact { hl with }
  | report => exact { hl with }
  | finish flying now outcome => exact hl.finish hp flying now outcome

theorem of_start (h : Reaches o (Point.start g) q) : Ledger g q := by
  induction h with
  | refl => exact Ledger.start g
  | tail hpx hm ih => exact ih.move (Inv.of_start hpx) (Traced.of_start hpx) hm

/-- What is complete has outputs, if that is so in the graph and no-ops are complete there. -/
theorem isSome_outputs (hl : Ledger g p) (hno : ∀ n ∈ g.nodes, n.action = .noOp → n.isComplete = true)
    (hstart : ∀ n ∈ g.nodes, n.isComplete = true → n.outputs.isSome = true) {m : InfraNode}
    (hm : m ∈ p.run.graph.nodes) (hc : m.isComplete = true) : m.outputs.isSome = true := by
  rcases hl.done m hm hc with hold | hmno | ⟨-, hsome⟩
  · exact hstart m hold hc
  · obtain ⟨n, hn, hsame, -, houtputs, -⟩ := hl.kept m hm hmno
    rw [houtputs]
    exact hstart n hn (hno n hn (hsame.action.symm.trans hmno))
  · exact hsome

/-- **There are never more results and calls in flight than nodes.** -/
theorem length_le (hl : Ledger g p) (hp : Inv o g p) :
    p.run.results.length + p.run.inFlight.length ≤ g.size := by
  have hids : ∀ c ∈ p.run.calls, c.id ∈ g.ids := by
    intro c hc
    obtain ⟨n, hn, hid, -⟩ := hp.called c hc
    exact Graph.mem_ids_iff.2 ⟨n, hn, hid⟩
  have hsub : p.run.results.map NodeResult.id ++ p.run.inFlight.map Call.id ⊆ g.ids := by
    intro id hid
    rcases List.mem_append.1 hid with hid | hid
    · obtain ⟨x, hx, rfl⟩ := List.mem_map.1 hid
      obtain ⟨c, hc, hcx, -⟩ := hl.reported x hx
      exact hcx ▸ hids c hc
    · obtain ⟨c, hc, rfl⟩ := List.mem_map.1 hid
      exact hids c (hl.flying hc)
  have hle := (hl.distinct.subperm hsub).length_le
  rw [List.length_append, List.length_map, List.length_map] at hle
  exact Nat.le_trans hle (Nat.le_of_eq (List.length_map _))

end Ledger

/-! ### References that are not found -/

/-- Whether the node whose turn it is refers to what is not there. -/
def Stuck (o : RunOptions) (p : Point) (n : InfraNode) (cause : ExpressionError) : Prop :=
  (∃ rest, p.queue = n :: rest) ∧ p.run.inFlight.length < o.limit ∧ n.action ≠ .noOp ∧ n.action ≠ .delete ∧
    Reference.resolve p.outputs n.inputs = .error cause

/-- **A run fails for a reference only if a node had its turn and the reference was not found then.** -/
theorem exists_refusal (h : Reaches o (Point.start g) q) {id : String} {cause : ExpressionError}
    (hf : q.run.failure = some (.unresolvedReference id cause)) :
    ∃ p n, Reaches o (Point.start g) p ∧ Reaches o p q ∧ n.id = id ∧ Stuck o p n cause := by
  induction h with
  | refl => cases hf
  | tail hpx hm ih =>
    rename_i x y
    -- either the failure was there before the move, or the move is the refusal
    have hold : x.run.failure = some (.unresolvedReference id cause) →
        ∃ p n, Reaches o (Point.start g) p ∧ Reaches o p y ∧ n.id = id ∧ Stuck o p n cause := by
      intro hx
      obtain ⟨p, n, hsp, hpx, hid, hstuck⟩ := ih hx
      exact ⟨p, n, hsp, hpx.tail hm, hid, hstuck⟩
    cases hm with
    | collect running => exact hold hf
    | take room taken =>
      rcases turn_eq_ok taken with ⟨-, rfl⟩ | ⟨-, m, -, rfl⟩
      · exact hold hf
      · exact hold hf
    | refuse room refused =>
      obtain ⟨hno, hdelete, cause', hres, he⟩ := turn_eq_error refused
      rw [he] at hf
      cases hf
      exact ⟨_, _, hpx, ReflTransGen.single (Move.refuse room refused), rfl, ⟨_, rfl⟩, room, hno, hdelete, hres⟩
    | close full => exact hold hf
    | report => exact hold hf
    | finish flying now outcome =>
      rename_i r outputs c
      cases outcome with
      | returned response => exact hold hf
      | failed e =>
        have hor : r.failure.or (some (.nodeFailed c.id e.message)) = some (.unresolvedReference id cause) := hf
        refine hold ?_
        cases hfailure : r.failure with
        | some e' =>
          rw [hfailure, Option.some_or] at hor
          exact hor
        | none =>
          rw [hfailure, Option.none_or] at hor
          cases hor
      | broken message => cases hf

/-- **When a node is stuck the run fails**, whatever happens after. -/
theorem Stuck.failure (hp : Inv o g p) {n : InfraNode} {cause : ExpressionError} (hs : Stuck o p n cause)
    (h : Reaches o p q) (hqueue : q.queue = []) : q.run.failure.isSome = true := by
  obtain ⟨⟨rest, hhead⟩, room, hno, hdelete, hres⟩ := hs
  rcases h.cases_head with rfl | ⟨x, hm, hxq⟩
  · rw [hhead] at hqueue
    cases hqueue
  · have hx := hp.move hm
    cases hm with
    | collect running => cases hhead
    | take _ taken =>
      cases hhead
      rcases turn_isOk_iff.1 ⟨_, taken⟩ with h | h | ⟨v, h⟩
      · exact absurd h hno
      · exact absurd h hdelete
      · rw [hres] at h
        cases h
    | refuse _ _ => exact (failed_of_reaches hx rfl hxq).2.1
    | close full => exact absurd full (Nat.not_le_of_lt room)
    | report => cases hhead
    | finish flying now outcome => cases hhead

end Groundwork.Run
