import Groundwork.Proofs.Run.Answers
import Groundwork.Proofs.Run.Completion

/-!
# Runs do not depend on the schedule

Inputs are resolved by the outputs of all nodes that are complete so far, and which these are depends on how
many calls may be in flight and in what order they return.  If every reference has an edge to the node that it
names, and plugins answer by a rule, this makes no difference: a node then only looks at nodes that it waits
for, and finds there what any other run of the graph finds.

The proof compares a run with the end of one that went well.  At every moment the complete nodes of the run are
those of that end, so it asks the same of the plugins, is answered the same, and refuses no reference.  It does
not stop early either: what becomes complete in the other run becomes so in this one, in the order of that run.

Main statements: a run mirrors one that went well (`Mirrors.of_start`), and so it goes well, with the same
requests and the same graph in the end, save for times (`execute_independent`).
-/

namespace Groundwork

/-- A node without the times of its status. -/
def InfraNode.timeless (n : InfraNode) : InfraNode :=
  { n with status := ⟨n.status.phase, n.status.message, none, none, none⟩ }

/-- The times of a status are neither in the id nor in the outputs. -/
theorem InfraNode.of_timeless_eq {n m : InfraNode} (h : n.timeless = m.timeless) :
    n.id = m.id ∧ n.outputs = m.outputs := by
  have hid : n.timeless.id = m.timeless.id := congrArg InfraNode.id h
  have houtputs : n.timeless.outputs = m.timeless.outputs := congrArg InfraNode.outputs h
  exact ⟨hid, houtputs⟩

/-- A graph without the times of its nodes. -/
def Infrastructure.timeless (g : Infrastructure) : Infrastructure := g.mapNodes InfraNode.timeless fun _ => rfl

namespace Run

open Relation
open Infrastructure

variable {o o' : RunOptions} {g : Infrastructure} {respond : PluginKind → ApplyRequest → Outcome} {p q : Point}

/-! ### The end of a run that went well -/

/-- A moment of a run by a rule at which nothing has failed and all nodes are complete. -/
structure WellDone (respond : PluginKind → ApplyRequest → Outcome) (o : RunOptions) (g : Infrastructure)
    (q : Point) : Prop where
  reached : ReachesBy (Follows respond) o (Point.start g) q
  running : q.run.failure = none
  complete : ∀ m ∈ q.run.graph.nodes, m.isComplete = true

/-- Every node has become what the rule makes of it. -/
theorem WellDone.becomes (hq : WellDone respond o g q) {n : InfraNode} (hn : n ∈ g.nodes) :
    ∃ k ∈ q.run.graph.nodes, Becomes o respond (Infrastructure.outputs q.run.graph) n k := by
  obtain ⟨k, hk, hnk⟩ := (Inv.of_start hq.reached.reaches).exists_later hn
  obtain ⟨j, hj, hbecomes⟩ := (Answered.of_start hq.reached).complete k hk (hq.complete k hk)
  have hjn : j = n := Graph.eq_of_id_eq hj hn (hbecomes.id.symm.trans hnk.id)
  rw [hjn] at hbecomes
  exact ⟨k, hk, hbecomes⟩

/-- A node that had to be changed was answered. -/
theorem WellDone.answered (hq : WellDone respond o g q) {n : InfraNode} (hn : n ∈ g.nodes)
    (hnc : n.isComplete = false) (hno : n.action ≠ .noOp) :
    ∃ m c response now, Sent o (Infrastructure.outputs q.run.graph) n m c ∧
      respond c.plugin c.request = .returned response ∧ answered response now m ∈ q.run.graph.nodes := by
  obtain ⟨k, hk, hbecomes⟩ := hq.becomes hn
  cases hbecomes with
  | kept complete =>
    rw [hnc] at complete
    cases complete
  | passed incomplete unchanged now => exact absurd unchanged hno
  | answered sent answer now => exact ⟨_, _, _, now, sent, answer, hk⟩

/-- For a node that had to be changed there was a call. -/
theorem WellDone.exists_call (hq : WellDone respond o g q) {n : InfraNode} (hn : n ∈ g.nodes)
    (hnc : n.isComplete = false) (hno : n.action ≠ .noOp) :
    ∃ m, ∃ c ∈ q.run.calls, Sent o (Infrastructure.outputs q.run.graph) n m c := by
  have hl := Ledger.of_start hq.reached.reaches
  have hresult := result_of_changing (Inv.of_start hq.reached.reaches) hl hq.complete
    (mem_changing.2 ⟨hn, hnc, hno⟩)
  obtain ⟨c, hc, hid, -⟩ := hl.reported _ hresult
  obtain ⟨k, hk, m, hsent⟩ := (Answered.of_start hq.reached).called c hc
  have hkn : k = n := Graph.eq_of_id_eq hk hn (hsent.id.1.symm.trans hid)
  rw [hkn] at hsent
  exact ⟨m, c, hc, hsent⟩

/-! ### The invariant -/

/-- Whether nothing has failed in a run, and what is complete is as it is in another graph. -/
structure Mirrors (h : Infrastructure) (p : Point) : Prop where
  running : p.run.failure = none
  complete : ∀ m ∈ p.run.graph.nodes, m.isComplete = true → ∃ k ∈ h.nodes, k.timeless = m.timeless

theorem Mirrors.start (hq : WellDone respond o g q) : Mirrors q.run.graph (Point.start g) where
  running := rfl
  complete := fun m hm hc =>
    ⟨m, (Inv.start o g).complete_mem_of_reaches hq.reached.reaches hm hc, rfl⟩

/-- Of a complete node the same outputs are seen in both. -/
theorem Mirrors.lookup_outputs (hm : Mirrors q.run.graph p) (hq : WellDone respond o g q) {id : String}
    (hc : isCompleteId p.run.graph id = true) :
    (Infrastructure.outputs p.run.graph).lookup id = (Infrastructure.outputs q.run.graph).lookup id := by
  obtain ⟨m, hmem, rfl, hmc⟩ := isCompleteId_iff.1 hc
  obtain ⟨k, hk, hsame⟩ := hm.complete m hmem hmc
  obtain ⟨hid, houtputs⟩ := InfraNode.of_timeless_eq hsame
  rw [lookup_outputs_of_mem hmem hmc, ← hid, lookup_outputs_of_mem hk (hq.complete k hk), houtputs]

theorem Mirrors.within (hm : Mirrors q.run.graph p) (hq : WellDone respond o g q) :
    (Infrastructure.outputs p.run.graph).Within (Infrastructure.outputs q.run.graph) := by
  intro id v hv
  obtain ⟨m, hmem, hid, hmc, -⟩ := Infrastructure.lookup_outputs.1 hv
  rw [← hm.lookup_outputs hq (isCompleteId_iff.2 ⟨m, hmem, hid, hmc⟩)]
  exact hv

/-- **A call is answered as in the run that went well.** -/
theorem Mirrors.answer (hm : Mirrors q.run.graph p) (hq : WellDone respond o g q)
    (hdirectory : o.directory = o'.directory) {n m : InfraNode} {c : Call} (hn : n ∈ g.nodes)
    (hsent : Sent o' (Infrastructure.outputs p.run.graph) n m c) :
    ∃ response, respond c.plugin c.request = .returned response ∧
      ∀ now, ∃ k ∈ q.run.graph.nodes, k.timeless = (answered response now m).timeless := by
  obtain ⟨m', c', response, now', hsent', hanswer, hmem⟩ := hq.answered hn hsent.incomplete hsent.changes
  obtain ⟨hc, hsame⟩ := hsent.congr hdirectory.symm (hm.within hq) hsent'
  rw [hc] at hanswer
  refine ⟨response, hanswer, fun now => ⟨_, hmem, ?_⟩⟩
  rw [hsame]
  rfl

/-- **No reference is refused.**  A node whose turn it is waits for all that it refers to, and sees there what
there is to be seen in the end. -/
theorem Mirrors.resolve (hm : Mirrors q.run.graph p) (hq : WellDone respond o g q)
    (htokens : ∀ n ∈ g.nodes, n.action ≠ .delete → ∀ r ∈ Reference.all n.inputs,
      (⟨n.id, r.node⟩ : Edge) ∈ g.edges)
    (h : Reaches o' (Point.start g) p) {n : InfraNode} (hn : n ∈ p.queue) (hno : n.action ≠ .noOp)
    (hdelete : n.action ≠ .delete) : ∃ v, Reference.resolve p.outputs n.inputs = .ok v := by
  have hp := Inv.of_start h
  obtain ⟨-, hnc, -, hu⟩ := hp.queued n hn
  have hng := (Traced.of_start h).mem_of_queued hp hn
  obtain ⟨m, c, -, -, hsent, -, -⟩ := hq.answered hng hnc hno
  obtain ⟨start, hprepared⟩ := hsent.prepared
  have hres : Reference.resolve (Infrastructure.outputs q.run.graph) n.inputs = .ok m.inputs :=
    ((prepare_eq_ok hprepared).2.2.2.2.resolve_left fun hd => hdelete hd.1).2
  refine ⟨m.inputs, Reference.resolve_mono hres fun e he r hr v hv => ?_⟩
  have hedge : (⟨n.id, r.node⟩ : Edge) ∈ p.run.graph.edges := by
    rw [hp.edges]
    exact htokens n hng hdelete r (List.mem_filterMap.2 ⟨e, he, hr⟩)
  have hseen := Sees.of_start h n hn _ hedge rfl
  rw [hseen, hm.lookup_outputs hq (isUnblocked_iff.1 hu _ hedge rfl)]
  exact hv

/-- **Every move by the rule keeps the likeness.** -/
theorem Mirrors.move (hm : Mirrors q.run.graph p) (hq : WellDone respond o g q)
    (hdirectory : o.directory = o'.directory)
    (htokens : ∀ n ∈ g.nodes, n.action ≠ .delete → ∀ r ∈ Reference.all n.inputs,
      (⟨n.id, r.node⟩ : Edge) ∈ g.edges)
    (h : ReachesBy (Follows respond) o' (Point.start g) p) {x : Point}
    (hmove : MoveBy (Follows respond) o' p x) : Mirrors q.run.graph x := by
  have hp := Inv.of_start h.reaches
  cases hmove with
  | stage hmove kept =>
    cases hmove with
    | collect running => exact { hm with }
    | take room taken =>
      rename_i r next outputs n rest now
      obtain ⟨hn, hnc, -, -⟩ := hp.queued n List.mem_cons_self
      have hng := (Traced.of_start h.reaches).mem_of_queued hp List.mem_cons_self
      rcases turn_eq_ok taken with ⟨hno, rfl⟩ | ⟨-, m, hprepared, rfl⟩
      · have hr : Replaces r.graph (passOver now n r).graph n _ :=
          replaces_insertNode hn ⟨rfl, rfl, rfl, rfl, rfl, rfl⟩
        refine ⟨hm.running, fun l hl hlc => ?_⟩
        rcases (hr.nodes l).1 hl with rfl | ⟨hl, -⟩
        · obtain ⟨k, hk, hbecomes⟩ := hq.becomes hng
          cases hbecomes with
          | kept complete =>
            rw [hnc] at complete
            cases complete
          | passed incomplete unchanged now' => exact ⟨_, hk, rfl⟩
          | answered sent answer now' => exact absurd hno sent.changes
        · exact hm.complete l hl hlc
      · have hr : Replaces r.graph (handOver o' m r).graph n m :=
          replaces_insertNode hn (prepare_eq_ok hprepared).1
        refine ⟨hm.running, fun l hl hlc => ?_⟩
        rcases (hr.nodes l).1 hl with rfl | ⟨hl, -⟩
        · rw [(prepare_eq_ok hprepared).2.1] at hlc
          cases hlc
        · exact hm.complete l hl hlc
    | refuse room refused =>
      obtain ⟨hno, hdelete, cause, hres, -⟩ := turn_eq_error refused
      obtain ⟨v, hv⟩ := hm.resolve hq htokens h.reaches List.mem_cons_self hno hdelete
      rw [hres] at hv
      cases hv
    | close full => exact { hm with }
    | report => exact { hm with }
    | finish flying now outcome => exact absurd rfl (mem_inFlight_finish (kept flying)).2
  | finish flying now allowed =>
    rename_i r outputs c outcome
    obtain ⟨n, hn, m, hmem, hsent, -⟩ := (Answered.of_start h).flying c flying
    obtain ⟨response, hanswer, hmirror⟩ := hm.answer hq hdirectory hn hsent
    have houtcome : outcome = .returned response := allowed.trans hanswer
    subst houtcome
    have hr := replaces_returned hmem (hsent.id.2.trans hsent.id.1.symm) now response
    refine ⟨hm.running, fun l hl hlc => ?_⟩
    rcases (hr.nodes l).1 hl with rfl | ⟨hl, -⟩
    · exact hmirror now
    · exact hm.complete l hl hlc

theorem Mirrors.of_start (hq : WellDone respond o g q) (hdirectory : o.directory = o'.directory)
    (htokens : ∀ n ∈ g.nodes, n.action ≠ .delete → ∀ r ∈ Reference.all n.inputs,
      (⟨n.id, r.node⟩ : Edge) ∈ g.edges)
    (h : ReachesBy (Follows respond) o' (Point.start g) p) : Mirrors q.run.graph p := by
  induction h with
  | refl => exact Mirrors.start hq
  | tail hpx hmove ih => exact ih.move hq hdirectory htokens hpx hmove

/-! ### No early stop -/

/-- A node after a move was there before, or it waited for nothing. -/
theorem mem_or_unblocked (h : ReachesBy (Follows respond) o (Point.start g) p)
    (hmove : MoveBy (Follows respond) o p q) {m : InfraNode} (hm : m ∈ q.run.graph.nodes) :
    m ∈ p.run.graph.nodes ∨ isUnblocked p.run.graph m.id = true := by
  have hp := Inv.of_start h.reaches
  cases hmove with
  | stage hmove kept =>
    cases hmove with
    | collect running => exact Or.inl hm
    | take room taken =>
      rename_i r next outputs n rest now
      obtain ⟨hn, -, -, hu⟩ := hp.queued n List.mem_cons_self
      have hreplaced : ∀ k, SameChange n k → m ∈ (r.graph.insertNode k).nodes →
          m ∈ r.graph.nodes ∨ isUnblocked r.graph m.id = true := by
        intro k hs hm
        rcases ((replaces_insertNode hn hs).nodes m).1 hm with rfl | ⟨hm, -⟩
        · rw [hs.id]
          exact Or.inr hu
        · exact Or.inl hm
      rcases turn_eq_ok taken with ⟨-, rfl⟩ | ⟨-, k, hk, rfl⟩
      · exact hreplaced { n with status := .completeAt now } ⟨rfl, rfl, rfl, rfl, rfl, rfl⟩ hm
      · exact hreplaced k (prepare_eq_ok hk).1 hm
    | refuse room refused => exact Or.inl hm
    | close full => exact Or.inl hm
    | report => exact Or.inl hm
    | finish flying now outcome => exact absurd rfl (mem_inFlight_finish (kept flying)).2
  | finish flying now allowed =>
    rename_i r outputs c outcome
    obtain ⟨n, -, l, -, hsent, hu⟩ := (Answered.of_start h).flying c flying
    rcases hp.finish_cases flying now outcome with ⟨hgraph, -⟩ | ⟨k, l', hr, hid, -⟩
    · have hm : m ∈ (finish now c outcome r).graph.nodes := hm
      rw [hgraph] at hm
      exact Or.inl hm
    · rcases (hr.nodes m).1 hm with rfl | ⟨hm, -⟩
      · rw [hr.same.id, hid, hsent.id.1]
        exact Or.inr hu
      · exact Or.inl hm

/-- **What becomes complete in one run becomes so in every other that comes to rest without a failure**, in the
order of the first. -/
theorem isCompleteId_of_atRest {x : Point} (hx : Reaches o' (Point.start g) x) (hrest : AtRest x.run)
    (hf : x.run.failure = none) (h : ReachesBy (Follows respond) o (Point.start g) p) :
    ∀ m ∈ p.run.graph.nodes, m.isComplete = true → isCompleteId x.run.graph m.id = true := by
  have hinv := Inv.of_start hx
  induction h with
  | refl =>
    intro m hm hc
    rw [isCompleteId_of_mem ((Inv.start o' g).complete_mem_of_reaches hx hm hc)]
    exact hc
  | tail hpy hmove ih =>
    rename_i y z
    intro m hm hc
    rcases mem_or_unblocked hpy hmove hm with hold | hu
    · exact ih m hold hc
    · have hy := Inv.of_start (ReachesBy.reaches hpy)
      have hz := Inv.of_start (ReachesBy.reaches (hpy.tail hmove))
      -- all that the node waits for is complete here too
      have hunblocked : isUnblocked x.run.graph m.id = true := by
        refine isUnblocked_iff.2 fun e he hsource => ?_
        rw [hinv.edges, ← hy.edges] at he
        obtain ⟨k, hk, hid, hkc⟩ := isCompleteId_iff.1 (isUnblocked_iff.1 hu e he hsource)
        rw [← hid]
        exact ih k hk hkc
      obtain ⟨n, hn, hnm⟩ := hz.same m hm
      obtain ⟨l, hl, hnl⟩ := hinv.exists_later hn
      have hid : l.id = m.id := hnl.id.trans hnm.id.symm
      rw [← hid, isCompleteId_of_mem hl]
      by_contra hopen
      have hready : l ∈ ready x.run.graph :=
        mem_ready.2 ⟨hl, Bool.eq_false_iff.2 hopen, hid ▸ hunblocked⟩
      rw [hrest.2 hf] at hready
      cases hready

/-! ### Equal ends -/

/-- Graphs of the same ids and edges are the same, up to times, if their nodes are. -/
theorem timeless_eq {h k : Infrastructure} (hids : h.ids = k.ids) (hedges : h.edges = k.edges)
    (hnodes : ∀ m ∈ h.nodes, ∃ l ∈ k.nodes, l.timeless = m.timeless) : h.timeless = k.timeless := by
  have hfound : ∀ m ∈ h.nodes, (k.node? m.id).map InfraNode.timeless = some m.timeless := by
    intro m hm
    obtain ⟨l, hl, hsame⟩ := hnodes m hm
    rw [Graph.node?_eq_some_iff.2 ⟨hl, (InfraNode.of_timeless_eq hsame).1⟩, Option.map_some, hsame]
  have hself : ∀ l ∈ k.nodes, (k.node? l.id).map InfraNode.timeless = some l.timeless := by
    intro l hl
    rw [show k.node? l.id = some l from Graph.node?_id hl, Option.map_some]
  -- without times both lists of nodes are what the one graph has under the ids
  have hlists : (h.nodes.map InfraNode.timeless).map some = (k.nodes.map InfraNode.timeless).map some :=
    calc (h.nodes.map InfraNode.timeless).map some
        = h.ids.map fun id => (k.node? id).map InfraNode.timeless := by
          rw [Graph.ids, idsOf, List.map_map, List.map_map]
          exact List.map_congr_left fun m hm => (hfound m hm).symm
      _ = k.ids.map fun id => (k.node? id).map InfraNode.timeless := by rw [hids]
      _ = (k.nodes.map InfraNode.timeless).map some := by
          rw [Graph.ids, idsOf, List.map_map, List.map_map]
          exact List.map_congr_left hself
  exact Graph.ext (List.map_injective_iff.2 (Option.some_injective _) hlists) hedges

/-- **A run that mirrors one that went well, and is well done itself, has made the same calls.** -/
theorem mem_calls_of_mirrors (hm : Mirrors q.run.graph p) (hq : WellDone respond o g q)
    (hdirectory : o.directory = o'.directory) (hp : WellDone respond o' g p) {c : Call} :
    c ∈ p.run.calls ↔ c ∈ q.run.calls := by
  constructor
  · intro hc
    obtain ⟨n, hn, m, hsent⟩ := (Answered.of_start hp.reached).called c hc
    obtain ⟨m', d, hd, hsent'⟩ := hq.exists_call hn hsent.incomplete hsent.changes
    rw [← (hsent.congr hdirectory.symm (hm.within hq) hsent').1]
    exact hd
  · intro hc
    obtain ⟨n, hn, m, hsent⟩ := (Answered.of_start hq.reached).called c hc
    obtain ⟨m', d, hd, hsent'⟩ := hp.exists_call hn hsent.incomplete hsent.changes
    rw [(hsent'.congr hdirectory.symm (hm.within hq) hsent).1]
    exact hd

/-- **Runs do not depend on the schedule.**  If each reference of a node that is not deleted has an edge to the
node that it names, plugins answer by a rule, and a run comes to a good end, then so does every other run,
however many calls may be in flight in it and in whatever order they return.  It reports the same results, it
has made the same calls, and it leaves the same graph behind, save for times. -/
theorem execute_independent {σ τ : Type} {scheduler : Scheduler σ} {scheduler' : Scheduler τ}
    (hdirectory : o.directory = o'.directory) (hrule : scheduler.Obeys (Follows respond))
    (hrule' : scheduler'.Obeys (Follows respond))
    (htokens : ∀ n ∈ g.nodes, n.action ≠ .delete → ∀ r ∈ Reference.all n.inputs,
      (⟨n.id, r.node⟩ : Edge) ∈ g.edges)
    {now now' : Instant} {s : σ} {s' : τ} {results : List NodeResult}
    (hok : (execute o scheduler now g s).1.outcome = .ok results) :
    let r := (execute o scheduler now g s).1
    let r' := (execute o' scheduler' now' g s').1
    (∃ results', r'.outcome = .ok results' ∧ results'.Perm results) ∧ r'.calls.Perm r.calls ∧
      r'.graph.timeless = r.graph.timeless := by
  intro r r'
  obtain ⟨seen, hreach⟩ := reachesBy_execute o hrule now g s
  obtain ⟨seen', hreach'⟩ := reachesBy_execute o' hrule' now' g s'
  have hinv := Inv.of_start hreach.reaches
  have hinv' := Inv.of_start hreach'.reaches
  obtain ⟨hf, hall, rfl⟩ := outcome_eq_ok_iff.1 hok
  have hq : WellDone respond o g ⟨r, seen, []⟩ := ⟨hreach, hf, hall⟩
  have hm : Mirrors r.graph ⟨r', seen', []⟩ := Mirrors.of_start hq hdirectory htokens hreach'
  have hall' : ∀ m ∈ r'.graph.nodes, m.isComplete = true := by
    intro m hmem
    obtain ⟨n, hn, hnm⟩ := hinv'.same m hmem
    obtain ⟨k, hk, hnk⟩ := hinv.exists_later hn
    have hdone := isCompleteId_of_atRest hreach'.reaches (atRest_execute o' scheduler' now' g s') hm.running
      hreach k hk (hall k hk)
    rw [← isCompleteId_of_mem hmem, hnm.id, ← hnk.id]
    exact hdone
  have hp : WellDone respond o' g ⟨r', seen', []⟩ := ⟨hreach', hm.running, hall'⟩
  refine ⟨⟨r'.results, outcome_eq_ok_iff.2 ⟨hm.running, hall', rfl⟩, ?_⟩, ?_, ?_⟩
  · exact (results_perm_changing hinv' (Ledger.of_start hreach'.reaches) hall' hm.running).trans
      (results_perm_changing hinv (Ledger.of_start hreach.reaches) hall hf).symm
  · exact (List.perm_ext_iff_of_nodup (hinv'.calls_nodup.of_map _) (hinv.calls_nodup.of_map _)).2 fun c =>
      mem_calls_of_mirrors hm hq hdirectory hp
  · exact timeless_eq (hinv'.ids.trans hinv.ids.symm) (hinv'.edges.trans hinv.edges.symm) fun m hmem =>
      hm.complete m hmem (hall' m hmem)

/-- Lets the call of some index return, with what a rule says. -/
def byRule (respond : PluginKind → ApplyRequest → Outcome) (index : List Call → Nat) : Scheduler Unit
  | s, [] => (⟨0, Instant.epoch, .broken ""⟩, s)
  | s, first :: rest =>
      let c := (first :: rest).getD (index (first :: rest)) first
      (⟨index (first :: rest), Instant.epoch, respond c.plugin c.request⟩, s)

theorem byRule_obeys (respond : PluginKind → ApplyRequest → Outcome) (index : List Call → Nat) :
    (byRule respond index).Obeys (Follows respond) := fun _ _ _ => rfl

/-- Plugins that succeed, and tell in their outputs what they were asked for. -/
def willing : PluginKind → ApplyRequest → Outcome := fun _ q => Part.usual.answer q

/-- A run of the service with these plugins. -/
def serve (limit : Nat) (index : List Call → Nat) : Run :=
  (execute ⟨limit, none⟩ (byRule willing index) Instant.epoch service ()).1

/-- The service comes to the same end, called one by one with the oldest call returning first, or all at once
with the newest call returning first. -/
theorem execute_independent_service :
    (∀ n ∈ service.nodes, n.action ≠ .delete → ∀ r ∈ Reference.all n.inputs,
        (⟨n.id, r.node⟩ : Edge) ∈ service.edges) ∧
      (∃ results, (serve 1 fun _ => 0).outcome = .ok results) ∧
      (∃ results, (serve 9 fun l => l.length - 1).outcome = .ok results) ∧
      (serve 9 fun l => l.length - 1).calls.Perm (serve 1 fun _ => 0).calls ∧
      (serve 9 fun l => l.length - 1).graph.timeless = (serve 1 fun _ => 0).graph.timeless := by
  have htokens : ∀ n ∈ service.nodes, n.action ≠ .delete → ∀ r ∈ Reference.all n.inputs,
      (⟨n.id, r.node⟩ : Edge) ∈ service.edges := by decide +kernel
  have hok : (serve 1 fun _ => 0).outcome.toOption.isSome = true := by decide +kernel
  obtain ⟨results, houtcome⟩ : ∃ results, (serve 1 fun _ => 0).outcome = .ok results := ⟨_, eq_ok_getD hok []⟩
  have hsame : ∀ (limit limit' : Nat) (index index' : List Call → Nat) (results : List NodeResult),
      (serve limit index).outcome = .ok results →
      (∃ results', (serve limit' index').outcome = .ok results' ∧ results'.Perm results) ∧
        (serve limit' index').calls.Perm (serve limit index).calls ∧
        (serve limit' index').graph.timeless = (serve limit index).graph.timeless := by
    intro limit limit' index index' results houtcome
    have hdirectory : (⟨limit, none⟩ : RunOptions).directory = (⟨limit', none⟩ : RunOptions).directory := rfl
    exact execute_independent hdirectory (byRule_obeys willing index) (byRule_obeys willing index') htokens
      houtcome
  obtain ⟨⟨results', houtcome', -⟩, hcalls, hgraph⟩ :=
    hsame 1 9 (fun _ => 0) (fun l => l.length - 1) results houtcome
  exact ⟨htokens, ⟨results, houtcome⟩, ⟨results', houtcome'⟩, hcalls, hgraph⟩

end Run

end Groundwork
