import Groundwork.Proofs.Graph.Order
import Groundwork.Proofs.Plan.Contents
import Groundwork.Proofs.Run.Rest
import Groundwork.Run.Rehearsal

/-!
# Runs of valid graphs

A run comes to rest.  If nothing has failed by then, nothing is ready, so every node that is not complete waits
for another such node; in a valid graph there is an end to that, and all nodes are complete.  What is missing
in the end is therefore always told by a failure that says why.

Main statements: a run of a valid graph that does not fail completes all nodes (`complete_of_atRest`); its end
is good exactly if all calls succeeded and all references were found, and then it has called the nodes that had
to be changed, each once, and left the others as they were (`execute_completes`).
-/

namespace Groundwork.Run

open Relation
open Infrastructure

variable {o : RunOptions} {g : Infrastructure} {p : Point}

/-! ### All nodes are complete -/

/-- **A run of a valid graph that is at rest and has not failed has completed all nodes.**  Otherwise there was a
node that is not complete and depends on complete ones only, and that would be ready. -/
theorem complete_of_atRest (hvalid : g.validate = .ok ()) (hp : Inv o g p) (hrest : AtRest p.run)
    (hf : p.run.failure = none) : ∀ m ∈ p.run.graph.nodes, m.isComplete = true := by
  obtain ⟨hends, hacyclic⟩ := (Graph.validate_eq_ok_iff g).1 hvalid
  have hnone : ready p.run.graph = [] := hrest.2 hf
  have key : ∀ a : { id // id ∈ g.ids }, isCompleteId p.run.graph a.1 = true := by
    intro a
    induction a using hacyclic.wellFounded.induction with
    | _ a ih =>
      have hunblocked : isUnblocked p.run.graph a.1 = true := by
        refine isUnblocked_iff.2 fun e he hsource => ?_
        rw [hp.edges] at he
        have hdep : g.DependsOn a.1 e.target := by
          rw [Graph.dependsOn_iff_of_validate hvalid, ← hsource]
          exact he
        exact ih ⟨e.target, (hends e he).2⟩ (TransGen.single hdep)
      obtain ⟨n, hn, hna⟩ := Graph.mem_ids_iff.1 a.2
      obtain ⟨m, hm, hnm⟩ := hp.exists_later hn
      have hid : m.id = a.1 := hnm.id.trans hna
      rw [← hid, isCompleteId_of_mem hm]
      by_contra hopen
      have hready : m ∈ ready p.run.graph :=
        mem_ready.2 ⟨hm, Bool.eq_false_iff.2 hopen, hid ▸ hunblocked⟩
      rw [hnone] at hready
      cases hready
  intro m hm
  obtain ⟨n, hn, hnm⟩ := hp.same m hm
  rw [← isCompleteId_of_mem hm, hnm.id]
  exact key ⟨n.id, Graph.id_mem_ids hn⟩

/-! ### What was called -/

/-- The nodes of a graph that have to be changed. -/
def changing (g : Infrastructure) : List InfraNode :=
  g.nodes.filter fun n => !n.isComplete && n.action ≠ .noOp

theorem mem_changing {n : InfraNode} :
    n ∈ changing g ↔ n ∈ g.nodes ∧ n.isComplete = false ∧ n.action ≠ .noOp := by
  simp [changing]

theorem nodup_ids_changing (g : Infrastructure) : ((changing g).map InfraNode.id).Nodup :=
  List.Nodup.sublist (List.filter_sublist.map _) g.ids_nodup

/-- What is called has to be changed. -/
theorem exists_changing_of_call (hp : Inv o g p) (hl : Ledger g p) {c : Call} (hc : c ∈ p.run.calls) :
    ∃ n ∈ changing g, n.id = c.id ∧ n.action = c.action := by
  obtain ⟨n, hn, hid, haction, hno⟩ := hp.called c hc
  exact ⟨n, mem_changing.2 ⟨hn, hl.called c hc n hn hid, hno⟩, hid, haction⟩

/-- What had to be changed and is complete has a result that says so. -/
theorem result_of_changing (hp : Inv o g p) (hl : Ledger g p)
    (hall : ∀ m ∈ p.run.graph.nodes, m.isComplete = true) {n : InfraNode} (hn : n ∈ changing g) :
    ⟨n.id, n.action, none⟩ ∈ p.run.results := by
  obtain ⟨hn, hnc, hno⟩ := mem_changing.1 hn
  obtain ⟨m, hm, hnm⟩ := hp.exists_later hn
  rcases hl.done m hm (hall m hm) with hold | hmno | ⟨hresult, -⟩
  · have hsame : m = n := Graph.eq_of_id_eq hold hn hnm.id
    rw [← hsame, hall m hm] at hnc
    cases hnc
  · exact absurd (hnm.action.symm.trans hmno) hno
  · rw [hnm.id, hnm.action] at hresult
    exact hresult

/-- What holds after a run of a graph that came to a good end. -/
structure Completed (g : Infrastructure) (r : Run) (results : List NodeResult) : Prop where
  /-- All nodes are there still, and complete. -/
  complete : r.graph.ids = g.ids ∧ ∀ m ∈ r.graph.nodes, m.isComplete = true
  /-- The plugins were called for the nodes that had to be changed, once for each. -/
  calls : (r.calls.map fun c => (c.id, c.action)).Perm ((changing g).map fun n => (n.id, n.action))
  /-- These are reported, as successes. -/
  results : results.Perm ((changing g).map fun n => ⟨n.id, n.action, none⟩)
  /-- What was complete or needed no change has its inputs, outputs and state as before. -/
  kept : ∀ n ∈ g.nodes, n.isComplete = true ∨ n.action = .noOp →
    ∃ m ∈ r.graph.nodes, m.id = n.id ∧ m.inputs = n.inputs ∧ m.outputs = n.outputs ∧ m.state = n.state

theorem calls_perm_changing (hp : Inv o g p) (hl : Ledger g p)
    (hall : ∀ m ∈ p.run.graph.nodes, m.isComplete = true) :
    (p.run.calls.map fun c => (c.id, c.action)).Perm ((changing g).map fun n => (n.id, n.action)) := by
  have hcalls : (p.run.calls.map fun c => (c.id, c.action)).Nodup := by
    refine List.Nodup.of_map Prod.fst ?_
    rw [List.map_map]
    exact hp.calls_nodup
  have hchanging : ((changing g).map fun n => (n.id, n.action)).Nodup := by
    refine List.Nodup.of_map Prod.fst ?_
    rw [List.map_map]
    exact nodup_ids_changing g
  refine (List.perm_ext_iff_of_nodup hcalls hchanging).2 fun x => ?_
  rw [List.mem_map, List.mem_map]
  constructor
  · rintro ⟨c, hc, rfl⟩
    obtain ⟨n, hn, hid, haction⟩ := exists_changing_of_call hp hl hc
    exact ⟨n, hn, Prod.ext hid haction⟩
  · rintro ⟨n, hn, rfl⟩
    obtain ⟨c, hc, hid, haction⟩ := hl.reported _ (result_of_changing hp hl hall hn)
    exact ⟨c, hc, Prod.ext hid haction⟩

theorem results_perm_changing (hp : Inv o g p) (hl : Ledger g p)
    (hall : ∀ m ∈ p.run.graph.nodes, m.isComplete = true) (hf : p.run.failure = none) :
    p.run.results.Perm ((changing g).map fun n => ⟨n.id, n.action, none⟩) := by
  have hresults : p.run.results.Nodup := (List.nodup_append.1 hl.distinct).1.of_map _
  have hchanging : ((changing g).map fun n => (⟨n.id, n.action, none⟩ : NodeResult)).Nodup := by
    refine List.Nodup.of_map NodeResult.id ?_
    rw [List.map_map]
    exact nodup_ids_changing g
  refine (List.perm_ext_iff_of_nodup hresults hchanging).2 fun x => ?_
  rw [List.mem_map]
  constructor
  · intro hx
    obtain ⟨c, hc, hcid, hcaction⟩ := hl.reported x hx
    obtain ⟨n, hn, hid, haction⟩ := exists_changing_of_call hp hl hc
    have herror : x.error = none := by
      cases hsuccess : x.success with
      | true => exact Option.isNone_iff_eq_none.1 hsuccess
      | false =>
        have hfailure := hp.failed x hx hsuccess
        rw [hf] at hfailure
        cases hfailure
    refine ⟨n, hn, ?_⟩
    rw [hid, haction, hcid, hcaction, ← herror]
  · rintro ⟨n, hn, rfl⟩
    exact result_of_changing hp hl hall hn

/-- **What a run has not to change is as before, up to its status.** -/
theorem kept_of_reaches (h : Reaches o (Point.start g) p) {n : InfraNode} (hn : n ∈ g.nodes)
    (hkeep : n.isComplete = true ∨ n.action = .noOp) :
    ∃ m ∈ p.run.graph.nodes, m.id = n.id ∧ m.inputs = n.inputs ∧ m.outputs = n.outputs ∧ m.state = n.state := by
  rcases hkeep with hc | hno
  · exact ⟨n, (Inv.start o g).complete_mem_of_reaches h hn hc, rfl, rfl, rfl, rfl⟩
  · obtain ⟨m, hm, hnm⟩ := (Inv.of_start h).exists_later hn
    obtain ⟨k, hk, hkm, hi, ho, hs⟩ := (Ledger.of_start h).kept m hm (hnm.action.trans hno)
    have hkn : k = n := Graph.eq_of_id_eq hk hn (hkm.id.symm.trans hnm.id)
    subst hkn
    exact ⟨m, hm, hnm.id, hi, ho, hs⟩

theorem completed_of_outcome (h : Reaches o (Point.start g) p) {results : List NodeResult}
    (hok : p.run.outcome = .ok results) : Completed g p.run results := by
  obtain ⟨hf, hall, rfl⟩ := outcome_eq_ok_iff.1 hok
  have hp := Inv.of_start h
  have hl := Ledger.of_start h
  exact {
    complete := ⟨hp.ids, hall⟩
    calls := calls_perm_changing hp hl hall
    results := results_perm_changing hp hl hall hf
    kept := fun n hn hkeep => kept_of_reaches h hn hkeep }

/-! ### Why a run fails -/

/-- **If all calls succeeded and no node was stuck, nothing has failed.** -/
theorem failure_eq_none (h : Reaches o (Point.start g) p)
    (hcalls : ∀ c ∈ p.run.calls, ∃ x ∈ p.run.results, x.id = c.id ∧ x.success = true)
    (hfound : ∀ q, Reaches o (Point.start g) q → Reaches o q p → ∀ n cause, ¬ Stuck o q n cause) :
    p.run.failure = none := by
  have hl := Ledger.of_start h
  cases hf : p.run.failure with
  | none => rfl
  | some e =>
    have hexplained := hl.explained e hf
    cases e with
    | unresolvedReference id cause =>
      obtain ⟨q, n, hq, hqp, -, hstuck⟩ := exists_refusal h hf
      exact absurd hstuck (hfound q hq hqp n cause)
    | nodeFailed id message =>
      obtain ⟨action, hx⟩ := hexplained
      obtain ⟨c, hc, hcid, -⟩ := hl.reported _ hx
      obtain ⟨y, hy, hyid, hsuccess⟩ := hcalls c hc
      -- a call has one result only
      have hsame : y = ⟨id, action, some message⟩ :=
        List.inj_on_of_nodup_map (List.nodup_append.1 hl.distinct).1 hy hx (hyid.trans hcid)
      rw [hsame] at hsuccess
      cases hsuccess
    | taskFailed message =>
      obtain ⟨-, c, hc, hnone⟩ := hexplained
      obtain ⟨x, hx, hxid, -⟩ := hcalls c hc
      exact absurd hxid (hnone x hx)
    | invariantViolation pending => exact hexplained.elim

/-- **Runs of valid graphs.**  Whatever the scheduler and the plugins do, the loop of a run ends.  It never ends
with nodes that are not complete without a failure that says why.  Its end is good exactly if all calls
succeeded and no node was stuck on a reference when it had its turn; and then exactly the nodes that had to be
changed were called and reported, each once, which in a plan are as many as it has changes. -/
theorem execute_completes {σ : Type} (o : RunOptions) (scheduler : Scheduler σ) (now : Instant)
    {g : Infrastructure} (s : σ) (hvalid : g.validate = .ok ()) :
    let r := (execute o scheduler now g s).1
    Loops o scheduler now (Run.start g) s r (execute o scheduler now g s).2 ∧
      (∀ pending, r.outcome ≠ .error (.invariantViolation pending)) ∧
      ((∃ results, r.outcome = .ok results) ↔
        (∀ c ∈ r.calls, ∃ x ∈ r.results, x.id = c.id ∧ x.success = true) ∧
          ∀ seen q, Reaches o (Point.start g) q → Reaches o q ⟨r, seen, []⟩ → ∀ n cause, ¬ Stuck o q n cause) ∧
      ∀ results, r.outcome = .ok results → Completed g r results ∧
        ∀ time before after, g = plan time before after →
          r.calls.length = (Plan.Summary.ofGraph g).changes := by
  intro r
  obtain ⟨seen, h⟩ := reaches_execute o scheduler now g s
  have hp := Inv.of_start h
  have hl := Ledger.of_start h
  have hrest := atRest_execute o scheduler now g s
  have hall : r.failure = none → ∀ m ∈ r.graph.nodes, m.isComplete = true :=
    complete_of_atRest hvalid hp hrest
  refine ⟨loops_execute o scheduler now g s, fun pending he => ?_, ⟨?_, ?_⟩, fun results hok => ?_⟩
  · cases hf : r.failure with
    | some e =>
      rw [outcome_of_failure hf] at he
      cases he
      exact (hl.explained _ hf).elim
    | none =>
      rw [outcome_eq_ok_iff.2 ⟨hf, hall hf, rfl⟩] at he
      cases he
  · rintro ⟨results, hok⟩
    have hf := (outcome_eq_ok_iff.1 hok).1
    refine ⟨fun c hc => ?_, fun seen q hq hqr n cause hstuck => ?_⟩
    · obtain ⟨n, hn, hid, -⟩ := exists_changing_of_call hp hl hc
      exact ⟨_, result_of_changing hp hl (hall hf) hn, hid, rfl⟩
    · have hfailure : r.failure.isSome = true := hstuck.failure (Inv.of_start hq) hqr rfl
      rw [hf] at hfailure
      cases hfailure
  · rintro ⟨hcalls, hfound⟩
    have hf : r.failure = none := failure_eq_none h hcalls (hfound seen)
    exact ⟨r.results, outcome_eq_ok_iff.2 ⟨hf, hall hf, rfl⟩⟩
  · have hcompleted : Completed g r results := completed_of_outcome h hok
    refine ⟨hcompleted, fun time before after hplan => ?_⟩
    have hlength := hcompleted.calls.length_eq
    rw [List.length_map, List.length_map] at hlength
    rw [hlength, Plan.changes_ofGraph, List.countP_eq_length_filter, changing]
    -- in a plan the nodes that are not complete are those that are no no-ops
    refine congrArg List.length (List.filter_congr fun n hn => ?_)
    have hiff := Plan.isComplete_iff_of_mem_plan (hplan ▸ hn)
    cases hc : n.isComplete with
    | true => simp [hiff.1 hc]
    | false =>
      have hno : n.action ≠ .noOp := fun e => by
        rw [hiff.2 e] at hc
        cases hc
      simp [hno]

/-- A service that refers to its database and to its cache, and a log that needs no change. -/
def service : Infrastructure :=
  Graph.ofParts
    [{ Plan.sample "app" .create .pending with
        inputs := .obj
          [("cache", .str "$\x7b\x7b module/cache@blue.id \x7d\x7d"),
            ("url", .str "$\x7b\x7b module/db@blue.id \x7d\x7d")] },
      Plan.sample "cache" .update .pending, Plan.sample "db" .create .pending, Plan.sample "log" .noOp .pending]
    [⟨"module/app@blue", "module/cache@blue"⟩, ⟨"module/app@blue", "module/db@blue"⟩,
      ⟨"module/db@blue", "module/log@blue"⟩]

/-- With plugins that succeed the service is completed, also under a limit of none. -/
theorem execute_completes_service :
    service.validate = .ok () ∧
      ∃ results, (Rehearsal.execute ⟨0, none⟩ [] service).outcome = .ok results ∧
        Completed service (Rehearsal.execute ⟨0, none⟩ [] service) results := by
  have hvalid : service.validate = .ok () := by decide +kernel
  obtain ⟨-, -, -, hcompleted⟩ := execute_completes ⟨0, none⟩ (Rehearsal.scheduler []) Instant.epoch
    Rehearsal.start hvalid
  have hok : (Rehearsal.execute ⟨0, none⟩ [] service).outcome.toOption.isSome = true := by decide +kernel
  have houtcome := eq_ok_getD hok []
  exact ⟨hvalid, _, houtcome, (hcompleted _ houtcome).1⟩

end Groundwork.Run
