import Groundwork.Proofs.Run.Ledger

/-!
# The courses of nodes

A run shows its graph from time to time.  What it has shown of a node by then, and what the node is now, tells how
far the node has come: it is as it was, or it is with its plugin, or its call has returned (`Standing`).  So along
the graphs that are shown a node first keeps the phase that it had, then is with its plugin, and then is complete
or in error (`Course`).

A turn may be missed by those who watch: nothing is said here of whether a node is ever shown with its plugin.

Nodes that need no change are taken to be complete from the beginning (`Quiet`), so that each turn is a call.

Main statements: each move keeps the account (`Recorded.move`), so every node takes its course in every run
(`Recorded.course`); and every graph that is shown is that of a moment of the run, at which whatever was called by
then has only complete nodes to depend on (`portrays_of_mem_snapshots`).
-/

namespace Groundwork.Run

open Relation
open Infrastructure

variable {o : RunOptions} {g h : Infrastructure} {p q : Point} {n m : InfraNode} {r r' : Run}

/-! ### Phases -/

/-- The phase of a node that is with its plugin. -/
def working (action : Action) : Phase := if action = .delete then .destroying else .applying

/-- The phase that a graph shows of the node with an id. -/
def phaseAt (h : Infrastructure) (id : String) : Option Phase := (h.node? id).map fun n => n.status.phase

theorem phaseAt_id (hm : m ∈ h.nodes) : phaseAt h m.id = some m.status.phase :=
  congrArg (Option.map _) (Graph.node?_id hm)

/-- Other nodes than the replaced one keep their phases. -/
theorem phaseAt_of_replaces (hr : Replaces g h n m) {id : String} (hne : id ≠ n.id) :
    phaseAt h id = phaseAt g id := by
  refine congrArg (Option.map _) (Option.ext fun k => ?_)
  rw [Graph.node?_eq_some_iff, Graph.node?_eq_some_iff, hr.nodes]
  constructor
  · rintro ⟨rfl | ⟨hk, -⟩, hid⟩
    · exact absurd (hid.symm.trans hr.same.id) hne
    · exact ⟨hk, hid⟩
  · rintro ⟨hk, hid⟩
    exact ⟨Or.inr ⟨hk, fun e => hne (hid.symm.trans e)⟩, hid⟩

theorem phaseAt_new (hr : Replaces g h n m) : phaseAt h n.id = some m.status.phase := by
  rw [← hr.same.id]
  exact phaseAt_id hr.new_mem

theorem phase_of_prepare {outputs : Table Value} {now : Instant} (h : prepare outputs now n = .ok m) :
    m.status.phase = working n.action := by
  rcases prepare_cases h with ⟨hdelete, rfl⟩ | ⟨hdelete, inputs, -, rfl⟩
  · exact (if_pos hdelete).symm
  · exact (if_neg hdelete).symm

theorem working_ne_complete (action : Action) : working action ≠ .complete := by
  unfold working
  split
  · exact nofun
  · exact nofun

theorem working_ne_error (action : Action) : working action ≠ .error := by
  unfold working
  split
  · exact nofun
  · exact nofun

theorem working_ne_pending (action : Action) : working action ≠ .pending := by
  unfold working
  split
  · exact nofun
  · exact nofun

/-! ### Courses -/

/-- Whether phases are those of a node that keeps its phase for a while, is with its plugin for a while, and has
then come to its end; what is complete keeps its phase forever. -/
structure Course (n : InfraNode) (before during after : Nat) (ending : Phase) (phases : List (Option Phase)) :
    Prop where
  phases_eq : phases = List.replicate (before + 1) (some n.status.phase) ++
    List.replicate during (some (working n.action)) ++ List.replicate after (some ending)
  ends : ending = .complete ∨ ending = .error
  kept : n.isComplete = true → during = 0 ∧ after = 0

/-- How far a node has come in a run that has shown these phases of it, and the phase that it has now. -/
inductive Standing (n : InfraNode) (r : Run) : List (Option Phase) → Option Phase → Prop
  /-- It was not called. -/
  | before (a : Nat) (fresh : n.id ∉ r.calls.map Call.id) :
      Standing n r (List.replicate (a + 1) (some n.status.phase)) (some n.status.phase)
  /-- It was called, and nothing has come back. -/
  | during (a b : Nat) (called : n.id ∈ r.calls.map Call.id) (incomplete : n.isComplete = false) :
      Standing n r (List.replicate (a + 1) (some n.status.phase) ++ List.replicate b (some (working n.action)))
        (some (working n.action))
  /-- Its call has returned. -/
  | after (a b c : Nat) {ending : Phase} (ends : ending = .complete ∨ ending = .error)
      (called : n.id ∈ r.calls.map Call.id) (incomplete : n.isComplete = false) (idle : r.isInFlight n.id = false) :
      Standing n r (List.replicate (a + 1) (some n.status.phase) ++ List.replicate b (some (working n.action)) ++
        List.replicate c (some ending)) (some ending)

namespace Standing

variable {shown : List (Option Phase)} {now : Option Phase}

theorem of_run (hs : Standing n r shown now)
    (hcalls : n.id ∈ r'.calls.map Call.id ↔ n.id ∈ r.calls.map Call.id)
    (hflight : r.isInFlight n.id = false → r'.isInFlight n.id = false) : Standing n r' shown now := by
  cases hs with
  | before a fresh => exact .before a fun hc => fresh (hcalls.1 hc)
  | during a b called incomplete => exact .during a b (hcalls.2 called) incomplete
  | after a b c ends called incomplete idle => exact .after a b c ends (hcalls.2 called) incomplete (hflight idle)

/-- The phase that a node has is shown. -/
theorem report (hs : Standing n r shown now) : Standing n r (shown ++ [now]) now := by
  cases hs with
  | before a fresh =>
    rw [← List.replicate_succ']
    exact .before (a + 1) fresh
  | during a b called incomplete =>
    rw [List.append_assoc, ← List.replicate_succ']
    exact .during a (b + 1) called incomplete
  | after a b c ends called incomplete idle =>
    rw [List.append_assoc, ← List.replicate_succ']
    exact .after a b (c + 1) ends called incomplete idle

/-- Of a node that was not called only its first phase has been shown. -/
theorem eq_replicate (hs : Standing n r shown now) (fresh : n.id ∉ r.calls.map Call.id) :
    ∃ a, shown = List.replicate (a + 1) (some n.status.phase) := by
  cases hs with
  | before a _ => exact ⟨a, rfl⟩
  | during a b called => exact absurd called fresh
  | after a b c ends called => exact absurd called fresh

/-- A node goes to its plugin. -/
theorem call (hs : Standing n r shown now) (fresh : n.id ∉ r.calls.map Call.id)
    (called : n.id ∈ r'.calls.map Call.id) (incomplete : n.isComplete = false) :
    Standing n r' shown (some (working n.action)) := by
  cases hs with
  | before a _ =>
    have hduring := Standing.during (r := r') a 0 called incomplete
    rw [List.replicate_zero, List.append_nil] at hduring
    exact hduring
  | during a b called => exact absurd called fresh
  | after a b c ends called => exact absurd called fresh

/-- What is in flight is with its plugin. -/
theorem eq_working (hs : Standing n r shown now) (flying : r.isInFlight n.id = true)
    (called : n.id ∈ r.calls.map Call.id) : now = some (working n.action) := by
  cases hs with
  | before a fresh => exact absurd called fresh
  | during a b _ _ => rfl
  | after a b c ends _ _ idle =>
    rw [idle] at flying
    cases flying

/-- The call of a node returns. -/
theorem finish (hs : Standing n r shown now) (flying : r.isInFlight n.id = true)
    (called : n.id ∈ r.calls.map Call.id) (called' : n.id ∈ r'.calls.map Call.id)
    (idle' : r'.isInFlight n.id = false) {ending : Phase} (ends : ending = .complete ∨ ending = .error) :
    Standing n r' shown (some ending) := by
  cases hs with
  | before a fresh => exact absurd called fresh
  | during a b _ incomplete =>
    have hafter := Standing.after a b 0 ends called' incomplete idle'
    rw [List.replicate_zero, List.append_nil] at hafter
    exact hafter
  | after a b c _ _ _ idle =>
    rw [idle] at flying
    cases flying

/-- What has been shown of a node, and what it is now, is its course.  If it has come to its end, it was called; and
if it has been shown with its plugin, that is part of the course. -/
theorem course (hs : Standing n r shown now) :
    ∃ before during after ending, Course n before during after ending (shown ++ [now]) ∧
      (0 < after → n.id ∈ r.calls.map Call.id ∧ (some (working n.action) ∈ shown.tail → 0 < during)) := by
  cases hs with
  | before a fresh =>
    refine ⟨a + 1, 0, 0, .complete, ⟨?_, Or.inl rfl, fun _ => ⟨rfl, rfl⟩⟩, nofun⟩
    rw [List.replicate_succ' (n := a + 1), List.replicate_zero, List.replicate_zero, List.append_nil, List.append_nil]
  | during a b called incomplete =>
    refine ⟨a, b + 1, 0, .complete, ⟨?_, Or.inl rfl, fun hc => ?_⟩, nofun⟩
    · rw [List.append_assoc, ← List.replicate_succ', List.replicate_zero, List.append_nil]
    · rw [incomplete] at hc
      cases hc
  | after a b c ends called incomplete idle =>
    rename_i ending
    have hkept : ∀ {during after : Nat}, n.isComplete = true → during = 0 ∧ after = 0 := by
      intro during after hc
      rw [incomplete] at hc
      cases hc
    cases b with
    | succ b =>
      refine ⟨a, b + 1, c + 1, ending, ⟨?_, ends, hkept⟩, fun _ => ⟨called, fun _ => Nat.succ_pos b⟩⟩
      rw [List.append_assoc, ← List.replicate_succ']
    | zero =>
      by_cases hphase : n.status.phase = working n.action ∧ 0 < a
      · -- the node began as one that is with its plugin, so its phase does not tell when it was called
        obtain ⟨hphase, ha⟩ := hphase
        obtain ⟨a, rfl⟩ := Nat.exists_eq_succ_of_ne_zero ha.ne'
        refine ⟨a, 1, c + 1, ending, ⟨?_, ends, hkept⟩, fun _ => ⟨called, fun _ => Nat.one_pos⟩⟩
        rw [List.replicate_zero, List.append_nil, List.append_assoc, ← List.replicate_succ', hphase,
          List.replicate_append_replicate]
      · refine ⟨a, 0, c + 1, ending, ⟨?_, ends, hkept⟩, fun _ => ⟨called, fun hmem => ?_⟩⟩
        · rw [List.append_assoc, ← List.replicate_succ']
        · rw [List.replicate_zero, List.append_nil, List.replicate_succ, List.cons_append, List.tail_cons,
            List.mem_append, List.mem_replicate, List.mem_replicate] at hmem
          rcases hmem with ⟨ha, he⟩ | ⟨-, he⟩
          · exact absurd ⟨(Option.some.inj he).symm, Nat.pos_of_ne_zero ha⟩ hphase
          · rcases ends with rfl | rfl
            · exact absurd (Option.some.inj he) (working_ne_complete _)
            · exact absurd (Option.some.inj he) (working_ne_error _)

end Standing

/-! ### The account -/

/-- Whether every node that needs no change is complete. -/
def Quiet (g : Infrastructure) : Prop := ∀ n ∈ g.nodes, n.action = .noOp → n.isComplete = true

/-- The graphs along which a run can be followed: the first, those that are shown, and the last. -/
def trail (g : Infrastructure) (r : Run) : List Infrastructure := g :: r.snapshots ++ [r.graph]

/-- What has been shown of a node by now, from the beginning. -/
def shownOf (g : Infrastructure) (r : Run) (id : String) : List (Option Phase) :=
  (g :: r.snapshots).map fun h => phaseAt h id

theorem shownOf_concat {id : String} (hsnapshots : r'.snapshots = r.snapshots ++ [h]) :
    shownOf g r' id = shownOf g r id ++ [phaseAt h id] := by
  rw [shownOf, hsnapshots, ← List.cons_append, List.map_append]
  rfl

theorem map_trail (g : Infrastructure) (r : Run) (id : String) :
    (trail g r).map (fun h => phaseAt h id) = shownOf g r id ++ [phaseAt r.graph id] := by
  rw [trail, List.map_append]
  rfl

/-- What holds at every moment of a run about what it has shown. -/
structure Recorded (g : Infrastructure) (p : Point) : Prop where
  standing : ∀ n ∈ g.nodes, Standing n p.run (shownOf g p.run n.id) (phaseAt p.run.graph n.id)
  /-- A node that was not called is as it was. -/
  untouched : ∀ m ∈ p.run.graph.nodes, m.id ∉ p.run.calls.map Call.id → m ∈ g.nodes

namespace Recorded

theorem start (g : Infrastructure) : Recorded g (Point.start g) where
  standing := by
    intro n hn
    have hphase : phaseAt g n.id = some n.status.phase := phaseAt_id hn
    show Standing n (Run.start g) [phaseAt g n.id] (phaseAt g n.id)
    rw [hphase]
    exact .before 0 nofun
  untouched := fun _ hm _ => hm

/-- A moment that shows the same graphs as another. -/
theorem of_same (hr : Recorded g p) (hgraph : q.run.graph = p.run.graph)
    (hsnapshots : q.run.snapshots = p.run.snapshots) (hcalls : q.run.calls = p.run.calls)
    (hflight : q.run.inFlight ⊆ p.run.inFlight) : Recorded g q where
  standing := by
    intro n hn
    rw [shownOf, hsnapshots, hgraph]
    refine (hr.standing n hn).of_run (by rw [hcalls]) fun hidle => Bool.eq_false_iff.2 fun hflies => ?_
    obtain ⟨c, hc, hid⟩ := isInFlight_iff.1 hflies
    exact Bool.eq_false_iff.1 hidle (isInFlight_iff.2 ⟨c, hflight hc, hid⟩)
  untouched := by
    rw [hgraph, hcalls]
    exact hr.untouched

theorem report {outputs : Table Value} (hr : Recorded g ⟨r, outputs, []⟩) :
    Recorded g ⟨{ r with snapshots := r.snapshots ++ [r.graph] }, outputs, []⟩ where
  standing := by
    intro n hn
    have hshown : shownOf g { r with snapshots := r.snapshots ++ [r.graph] } n.id =
        shownOf g r n.id ++ [phaseAt r.graph n.id] := shownOf_concat rfl
    show Standing n { r with snapshots := r.snapshots ++ [r.graph] } (shownOf g _ n.id) (phaseAt r.graph n.id)
    rw [hshown]
    exact (hr.standing n hn).report.of_run Iff.rfl id
  untouched := hr.untouched

theorem take {outputs seen : Table Value} {rest : List InfraNode} {now : Instant}
    (hr : Recorded g ⟨r, outputs, n :: rest⟩) (hp : Inv o g ⟨r, outputs, n :: rest⟩)
    (ht : Traced g ⟨r, outputs, n :: rest⟩) (hm : prepare seen now n = .ok m) :
    Recorded g ⟨handOver o m r, outputs, rest⟩ := by
  obtain ⟨hn, hnc, -, -⟩ := hp.queued n List.mem_cons_self
  obtain ⟨hsame, -, -, -, -⟩ := prepare_eq_ok hm
  have hreplaces : Replaces r.graph (handOver o m r).graph n m := replaces_insertNode hn hsame
  have hid : (callFor o m).id = n.id := hsame.id
  have hcalls : (handOver o m r).calls.map Call.id = r.calls.map Call.id ++ [n.id] := by
    rw [calls_handOver, List.map_append, List.map_singleton, hid]
  have hcalled : n.id ∈ (handOver o m r).calls.map Call.id := by
    rw [hcalls]
    exact List.mem_append_right _ List.mem_cons_self
  exact {
    standing := by
      intro k hk
      by_cases hkn : k.id = n.id
      · have hmem : n ∈ g.nodes := ht.mem_of_queued hp List.mem_cons_self
        obtain rfl : k = n := Graph.eq_of_id_eq hk hmem hkn
        show Standing k (handOver o m r) (shownOf g r k.id) (phaseAt (handOver o m r).graph k.id)
        rw [phaseAt_new hreplaces, phase_of_prepare hm]
        exact (hr.standing k hk).call hp.not_called hcalled hnc
      · show Standing k (handOver o m r) (shownOf g r k.id) (phaseAt (handOver o m r).graph k.id)
        rw [phaseAt_of_replaces hreplaces hkn]
        refine (hr.standing k hk).of_run ?_ fun hidle => Bool.eq_false_iff.2 fun hflies => ?_
        · rw [hcalls, List.mem_append, List.mem_singleton, or_iff_left hkn]
        · rcases isInFlight_handOver.1 hflies with hflies | hmk
          · exact Bool.eq_false_iff.1 hidle hflies
          · exact hkn (hmk.symm.trans hsame.id)
    untouched := by
      intro k hk hfresh
      rcases (hreplaces.nodes k).1 hk with rfl | ⟨hk, -⟩
      · exact absurd (hsame.id ▸ hcalled) hfresh
      · refine hr.untouched k hk fun hc => hfresh ?_
        rw [hcalls]
        exact List.mem_append_left _ hc }

/-- A call that returns is written into the graph, and the graph is shown. -/
theorem record {outputs : Table Value} (hr : Recorded g ⟨r, outputs, []⟩)
    (hl : Ledger g ⟨r, outputs, []⟩) {c : Call} (hc : c ∈ r.inFlight)
    (hreplaces : Replaces r.graph r'.graph n m) (hid : n.id = c.id)
    (hends : m.status.phase = .complete ∨ m.status.phase = .error) (hcalls : r'.calls = r.calls)
    (hflight : r'.inFlight = r.inFlight.filter (·.id ≠ c.id))
    (hsnapshots : r'.snapshots = r.snapshots ++ [r'.graph]) : Recorded g ⟨r', outputs, []⟩ := by
  have hcalled : n.id ∈ r.calls.map Call.id := hid ▸ List.mem_map_of_mem (hl.flying hc)
  exact {
    standing := by
      intro k hk
      show Standing k r' (shownOf g r' k.id) (phaseAt r'.graph k.id)
      rw [shownOf_concat hsnapshots]
      refine Standing.report ?_
      by_cases hkn : k.id = n.id
      · rw [hkn, phaseAt_new hreplaces, ← hkn]
        refine (hr.standing k hk).finish (isInFlight_iff.2 ⟨c, hc, hid.symm.trans hkn.symm⟩) (hkn ▸ hcalled) ?_ ?_ hends
        · rw [hcalls]
          exact hkn ▸ hcalled
        · exact Bool.eq_false_iff.2 fun hflies =>
            ((isInFlight_filter_iff hflight).1 hflies).2 (hkn.trans hid)
      · rw [phaseAt_of_replaces hreplaces hkn]
        refine (hr.standing k hk).of_run (by rw [hcalls]) fun hidle => Bool.eq_false_iff.2 fun hflies => ?_
        exact Bool.eq_false_iff.1 hidle ((isInFlight_filter_iff hflight).1 hflies).1
    untouched := by
      intro k hk hfresh
      have hfresh : k.id ∉ r.calls.map Call.id := hcalls ▸ hfresh
      rcases (hreplaces.nodes k).1 hk with rfl | ⟨hk, -⟩
      · exact absurd (hreplaces.same.id ▸ hcalled) hfresh
      · exact hr.untouched k hk hfresh }

theorem finish {outputs : Table Value} (hr : Recorded g ⟨r, outputs, []⟩) (hp : Inv o g ⟨r, outputs, []⟩)
    (hl : Ledger g ⟨r, outputs, []⟩) {c : Call} (hc : c ∈ r.inFlight) (now : Instant) (outcome : Outcome) :
    Recorded g ⟨Run.finish now c outcome r, outputs, []⟩ := by
  obtain ⟨n, hn, hid, -⟩ := hp.flying c hc
  cases outcome with
  | returned response =>
    exact hr.record hl hc (replaces_returned hn hid now response) hid (Or.inl rfl) (calls_finish _ _ _ _) rfl rfl
  | failed e =>
    exact hr.record hl hc (replaces_failed hn hid now e) hid (Or.inr rfl) (calls_finish _ _ _ _) rfl rfl
  | broken message => exact hr.of_same rfl rfl rfl (List.nil_subset _)

/-- **Every move keeps the account**, if what needs no change is complete from the beginning. -/
theorem move (hquiet : Quiet g) (hr : Recorded g p) (hp : Inv o g p) (ht : Traced g p) (hl : Ledger g p)
    (hm : Move o p q) : Recorded g q := by
  cases hm with
  | collect running => exact hr.of_same rfl rfl rfl (List.Subset.refl _)
  | take room taken =>
    rcases turn_eq_ok taken with ⟨hno, rfl⟩ | ⟨-, m, hm, rfl⟩
    · -- a node that needs no change is complete, so it is not in the queue
      obtain ⟨-, hnc, -, -⟩ := hp.queued _ List.mem_cons_self
      rw [hquiet _ (ht.mem_of_queued hp List.mem_cons_self) hno] at hnc
      cases hnc
    · exact hr.take hp ht hm
  | refuse room refused => exact hr.of_same rfl rfl rfl (List.Subset.refl _)
  | close full => exact hr.of_same rfl rfl rfl (List.Subset.refl _)
  | report => exact hr.report
  | finish flying now outcome => exact hr.finish hp hl flying now outcome

theorem of_start (hquiet : Quiet g)
    (hp : Reaches o (Point.start g) p) : Recorded g p := by
  induction hp with
  | refl => exact Recorded.start g
  | tail hp hm ih => exact ih.move hquiet (Inv.of_start hp) (Traced.of_start hp) (Ledger.of_start hp) hm

/-- **Every node takes its course** along the graphs that a run shows. -/
theorem course (hr : Recorded g p) (hn : n ∈ g.nodes) :
    ∃ before during after ending,
      Course n before during after ending ((trail g p.run).map fun h => phaseAt h n.id) ∧
        (0 < after → n.id ∈ p.run.calls.map Call.id ∧
          (some (working n.action) ∈ p.run.snapshots.map (fun h => phaseAt h n.id) → 0 < during)) := by
  rw [map_trail]
  exact (hr.standing n hn).course

/-- A node in flight has the phase of one that is with its plugin. -/
theorem phaseAt_flying (hr : Recorded g p) (hp : Inv o g p) (hl : Ledger g p) {c : Call} (hc : c ∈ p.run.inFlight) :
    phaseAt p.run.graph c.id = some (working c.action) := by
  have hcall := hl.flying hc
  obtain ⟨n, hn, hid, haction, -⟩ := hp.called c hcall
  rw [← hid, ← haction]
  refine (hr.standing n hn).eq_working (isInFlight_iff.2 ⟨c, hc, hid.symm⟩) ?_
  rw [hid]
  exact List.mem_map_of_mem hcall

end Recorded

/-! ### What is shown -/

/-- Whether a graph shows a moment of a run: whatever was called by then has only complete nodes to depend on in it,
and all the rest is as it was. -/
def Portrays (o : RunOptions) (g : Infrastructure) (r : Run) (h : Infrastructure) : Prop :=
  ∃ q seen, Reaches o (Point.start g) q ∧ Reaches o q ⟨r, seen, []⟩ ∧ q.run.graph = h ∧
    (∀ c ∈ q.run.calls, ∀ e ∈ g.edges, e.source = c.id → ∃ m ∈ h.nodes, m.id = e.target ∧ m.isComplete = true) ∧
    ∀ m ∈ h.nodes, m.id ∉ q.run.calls.map Call.id → m ∈ g.nodes

/-- What a call depends on was complete when it was made, and stays so. -/
theorem complete_of_called (hq : Reaches o (Point.start g) q) {c : Call} (hc : c ∈ q.run.calls) {e : Edge}
    (he : e ∈ g.edges) (hs : e.source = c.id) : ∃ m ∈ q.run.graph.nodes, m.id = e.target ∧ m.isComplete = true := by
  obtain ⟨x, y, hx, hmove, hy, hcy, hcx⟩ := exists_move_of_call hq hc fun h => by cases h
  obtain ⟨-, hcomplete⟩ := (Inv.of_start hx).safe.ordered y hmove c hcy hcx
  obtain ⟨m, hm, hid, hmc⟩ := hcomplete e he hs
  exact ⟨m, (Inv.of_start hx).complete_mem_of_reaches (hy.head hmove) hm hmc, hid, hmc⟩

/-- A graph that is shown is that of a moment on the way. -/
theorem exists_moment (hp : Reaches o (Point.start g) p) (hh : h ∈ p.run.snapshots) :
    ∃ q, Reaches o (Point.start g) q ∧ Reaches o q p ∧ q.run.graph = h := by
  induction hp with
  | refl => cases hh
  | tail hp hm ih =>
    rename_i p q
    have hold : h ∈ p.run.snapshots → ∃ x, Reaches o (Point.start g) x ∧ Reaches o x q ∧ x.run.graph = h := by
      intro hh
      obtain ⟨x, hx, hxp, hgraph⟩ := ih hh
      exact ⟨x, hx, hxp.tail hm, hgraph⟩
    have hnew : h = q.run.graph → ∃ x, Reaches o (Point.start g) x ∧ Reaches o x q ∧ x.run.graph = h :=
      fun e => ⟨q, hp.tail hm, ReflTransGen.refl, e.symm⟩
    cases hm with
    | collect running => exact hold hh
    | take room taken =>
      rcases turn_eq_ok taken with ⟨-, rfl⟩ | ⟨-, m, -, rfl⟩
      · exact hold hh
      · exact hold hh
    | refuse room refused => exact hold hh
    | close full => exact hold hh
    | report => exact (List.mem_append.1 hh).elim hold fun hh => hnew (List.mem_singleton.1 hh)
    | finish flying now outcome =>
      cases outcome with
      | returned response => exact (List.mem_append.1 hh).elim hold fun hh => hnew (List.mem_singleton.1 hh)
      | failed e => exact (List.mem_append.1 hh).elim hold fun hh => hnew (List.mem_singleton.1 hh)
      | broken message => exact hold hh

/-- **Every graph that is shown is that of a moment**, at which what was called has only complete nodes to depend
on. -/
theorem portrays_of_mem_snapshots (hquiet : Quiet g)
    {seen : Table Value} (hr : Reaches o (Point.start g) ⟨r, seen, []⟩) (hh : h ∈ r.snapshots) :
    Portrays o g r h := by
  obtain ⟨q, hq, hqr, rfl⟩ := exists_moment hr hh
  exact ⟨q, seen, hq, hqr, rfl, fun c hc e he hs => complete_of_called hq hc he hs,
    (Recorded.of_start hquiet hq).untouched⟩

end Groundwork.Run
