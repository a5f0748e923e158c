import Groundwork.Proofs.Plan.Contents
import Groundwork.Proofs.Run.Courses
import Groundwork.Proofs.Run.Rest
import Groundwork.Run.Rehearsal

/-!
# What is seen of a run

A run shows its graph at the end of each stage that has changed something, and after each call that returns.  A
stage that comes to a reference that is not found does not show what it has changed before.  So calls may have been
made that nobody has seen; if one of these is the next to return, its node is never seen with its plugin, and if
the next call breaks off, the run is over and they are never seen at all (`Overlooked`).

`Round` follows the loop of a run from its beginning, so that it can be said what each stage finds.

Main statements: a run is seen as it is (`Faithful`) unless calls are overlooked; if all nodes were complete or
pending, then exactly in that case (`execute_shows`).
-/

namespace Groundwork.Run

open Relation
open Infrastructure

variable {σ : Type} {o : RunOptions} {scheduler : Scheduler σ} {now t : Instant} {g h : Infrastructure} {s s' : σ}
  {r r' : Run} {p q : Point} {n : InfraNode}

/-! ### Rounds -/

/-- The call that a scheduler lets return next. -/
def Scheduler.chosen (scheduler : Scheduler σ) (s : σ) (first : Call) (rest : List Call) : Call :=
  (first :: rest).getD (scheduler s (first :: rest)).1.index first

/-- Whether a round of a run begins at a time, with the run as it is by then. -/
inductive Round (o : RunOptions) (scheduler : Scheduler σ) (now : Instant) (g : Infrastructure) (s : σ) :
    Instant → Run → σ → Prop
  | first : Round o scheduler now g s now (Run.start g) s
  /-- Nothing is in flight after a stage in which something has happened. -/
  | again {t : Instant} {r : Run} {s' : σ} (before : Round o scheduler now g s t r s')
      (idle : (dispatch o t r).inFlight = []) (running : (dispatch o t r).failure = none)
      (moved : progressed r (dispatch o t r) = true) : Round o scheduler now g s t (dispatch o t r) s'
  /-- A call has returned. -/
  | arrival {t : Instant} {r : Run} {s' : σ} {first : Call} {rest : List Call}
      (before : Round o scheduler now g s t r s') (flying : (dispatch o t r).inFlight = first :: rest) :
      Round o scheduler now g s (scheduler s' (first :: rest)).1.time
        (finish (scheduler s' (first :: rest)).1.time (scheduler.chosen s' first rest)
          (scheduler s' (first :: rest)).1.outcome (dispatch o t r)) (scheduler s' (first :: rest)).2

theorem reaches_stage (hr : ∃ seen, Reaches o p ⟨r, seen, []⟩) (t : Instant) :
    ∃ seen, Reaches o p ⟨dispatch o t r, seen, []⟩ := by
  obtain ⟨seen, hr⟩ := hr
  obtain ⟨later, hstage⟩ : ∃ later, ReachesBy (fun _ _ => True) o ⟨r, seen, []⟩ ⟨dispatch o t r, later, []⟩ :=
    reaches_dispatch seen t r
  exact ⟨later, hr.trans hstage.reaches⟩

theorem reaches_arrival (scheduler : Scheduler σ) (hr : ∃ seen, Reaches o p ⟨r, seen, []⟩) {first : Call}
    {rest : List Call} (flying : r.inFlight = first :: rest) (t : Instant) (s : σ) (outcome : Outcome) :
    ∃ seen, Reaches o p ⟨finish t (scheduler.chosen s first rest) outcome r, seen, []⟩ := by
  obtain ⟨seen, hr⟩ := hr
  exact ⟨seen, hr.tail (Move.finish (flying ▸ getD_mem_cons first rest _) t outcome)⟩

namespace Loops

variable {s₁ s₂ : σ}

/-- After a stage in which something has happened, and with nothing in flight, the loop goes on. -/
theorem of_again (loops : Loops o scheduler t r s₁ r' s₂) (idle : (dispatch o t r).inFlight = [])
    (running : (dispatch o t r).failure = none) (moved : progressed r (dispatch o t r) = true) :
    Loops o scheduler t (dispatch o t r) s₁ r' s₂ := by
  cases loops with
  | again _ _ _ on => exact on
  | rest _ still =>
    rw [running, moved] at still
    cases still with
    | inl hf => cases hf
    | inr hstill => cases hstill
  | arrival flying _ =>
    rw [idle] at flying
    cases flying

/-- With calls in flight the loop goes on when one returns. -/
theorem of_arrival (loops : Loops o scheduler t r s₁ r' s₂) {first : Call} {rest : List Call}
    (flying : (dispatch o t r).inFlight = first :: rest) :
    Loops o scheduler (scheduler s₁ (first :: rest)).1.time
      (finish (scheduler s₁ (first :: rest)).1.time (scheduler.chosen s₁ first rest)
        (scheduler s₁ (first :: rest)).1.outcome (dispatch o t r)) (scheduler s₁ (first :: rest)).2 r' s₂ := by
  cases loops with
  | again idle _ _ _ =>
    rw [idle] at flying
    cases flying
  | rest idle _ =>
    rw [idle] at flying
    cases flying
  | arrival flying' on =>
    rw [flying] at flying'
    cases flying'
    exact on

/-- A run that has failed and has nothing in flight is over. -/
theorem eq_of_failure (loops : Loops o scheduler t r s₁ r' s₂) (idle : r.inFlight = [])
    (failed : r.failure.isSome = true) : r' = r := by
  have hsame : dispatch o t r = r := dispatch_of_failure failed
  cases loops with
  | again _ running _ _ =>
    rw [hsame] at running
    rw [running] at failed
    cases failed
  | rest _ _ => exact hsame
  | arrival flying _ =>
    rw [hsame, idle] at flying
    cases flying

/-- The loop ends with the stage of a last round. -/
theorem exists_last (loops : Loops o scheduler t r s₁ r' s₂) (hr : Round o scheduler now g s t r s₁) :
    ∃ t' before s', Round o scheduler now g s t' before s' ∧ r' = dispatch o t' before ∧ r'.inFlight = [] := by
  induction loops with
  | again idle running moved on ih => exact ih (hr.again idle running moved)
  | rest idle still => exact ⟨_, _, _, hr, rfl, idle⟩
  | arrival flying on ih => exact ih (hr.arrival flying)

theorem reaches (loops : Loops o scheduler t r s₁ r' s₂) (hr : ∃ seen, Reaches o p ⟨r, seen, []⟩) :
    ∃ seen, Reaches o p ⟨r', seen, []⟩ := by
  induction loops with
  | again idle running moved on ih => exact ih (reaches_stage hr _)
  | rest idle still => exact reaches_stage hr _
  | arrival flying on ih => exact ih (reaches_arrival _ (reaches_stage hr _) flying _ _ _)

end Loops

namespace Round

theorem reaches (hr : Round o scheduler now g s t r s') : ∃ seen, Reaches o (Point.start g) ⟨r, seen, []⟩ := by
  induction hr with
  | first => exact ⟨[], ReflTransGen.refl⟩
  | again before idle running moved ih => exact reaches_stage ih _
  | arrival before flying ih => exact reaches_arrival _ (reaches_stage ih _) flying _ _ _

/-- From each round the loop goes on to the end of the run. -/
theorem loops (hr : Round o scheduler now g s t r s') :
    Loops o scheduler t r s' (execute o scheduler now g s).1 (execute o scheduler now g s).2 := by
  induction hr with
  | first => exact loops_execute o scheduler now g s
  | again before idle running moved ih => exact ih.of_again idle running moved
  | arrival before flying ih => exact ih.of_arrival flying

end Round

/-! ### What a stage shows -/

theorem snapshots_takeTurns (outputs : Table Value) (now : Instant) (l : List InfraNode) (r : Run) :
    (takeTurns o outputs now l r).snapshots = r.snapshots := by
  induction l generalizing r with
  | nil => rfl
  | cons n rest ih =>
    rw [takeTurns]
    split
    · rfl
    · split
      · rename_i next hturn
        rw [ih next]
        rcases turn_eq_ok hturn with ⟨-, rfl⟩ | ⟨-, m, -, rfl⟩
        · rfl
        · rfl
      · rfl

/-- Turns without events change nothing, though they may end with a failure. -/
theorem takeTurns_of_still {outputs : Table Value} {l : List InfraNode}
    (hstill : (takeTurns o outputs now l r).events.length ≤ r.events.length) :
    ∃ failure, takeTurns o outputs now l r = { r with failure } := by
  cases l with
  | nil => exact ⟨r.failure, rfl⟩
  | cons n rest =>
    rw [takeTurns] at hstill ⊢
    split at hstill
    · rename_i hfull
      exact ⟨r.failure, if_pos hfull⟩
    · rename_i hroom
      rw [if_neg hroom]
      split at hstill
      · rename_i next hturn
        have hone := length_events_turn hturn
        have hrest := length_events_takeTurns (o := o) outputs now rest next
        omega
      · rename_i e hturn
        exact ⟨some e, rfl⟩

/-- Calls that were not there before a stage are in flight after it. -/
theorem calls_takeTurns (outputs : Table Value) (now : Instant) (l : List InfraNode) (r : Run) {c : Call}
    (hc : c ∈ (takeTurns o outputs now l r).calls) :
    c ∈ r.calls ∨ c ∈ (takeTurns o outputs now l r).inFlight := by
  induction l generalizing r with
  | nil => exact Or.inl hc
  | cons n rest ih =>
    rw [takeTurns] at hc ⊢
    split at hc
    · exact Or.inl hc
    · rename_i hroom
      rw [if_neg hroom]
      split at hc
      · rename_i next hturn
        rcases ih next hc with hnext | hflies
        · rcases turn_eq_ok hturn with ⟨-, rfl⟩ | ⟨-, m, -, rfl⟩
          · rw [calls_passOver] at hnext
            exact Or.inl hnext
          · rw [calls_handOver] at hnext
            refine (List.mem_append.1 hnext).imp_right fun hnew => ?_
            exact inFlight_subset_takeTurns outputs now rest _ (List.mem_append_right _ hnew)
        · exact Or.inr hflies
      · exact Or.inl hc

theorem calls_dispatch {c : Call} (hc : c ∈ (dispatch o t r).calls) :
    c ∈ r.calls ∨ c ∈ (dispatch o t r).inFlight := by
  rcases dispatch_cases o t r with ⟨-, he⟩ | ⟨-, snapshots, he⟩
  · rw [he] at hc
    exact Or.inl hc
  · rw [he] at hc ⊢
    exact calls_takeTurns _ _ _ _ hc

/-- Whether a stage changes something and does not show it, because it fails. -/
def Hides (o : RunOptions) (t : Instant) (r : Run) : Prop :=
  (dispatch o t r).failure.isSome = true ∧ progressed r (dispatch o t r) = true

/-- A stage changes nothing, or shows what it has changed, or hides it. -/
theorem dispatch_shows (o : RunOptions) (t : Instant) (r : Run) :
    (progressed r (dispatch o t r) = false ∧ (dispatch o t r).graph = r.graph ∧ (dispatch o t r).calls = r.calls ∧
        (dispatch o t r).snapshots = r.snapshots) ∨
      ((dispatch o t r).failure = none ∧
        (dispatch o t r).snapshots = r.snapshots ++ [(dispatch o t r).graph]) ∨
      (Hides o t r ∧ (dispatch o t r).snapshots = r.snapshots) := by
  cases hf : r.failure with
  | some e =>
    have hsame : dispatch o t r = r := dispatch_of_failure (hf ▸ rfl)
    rw [hsame]
    exact Or.inl ⟨decide_eq_false (Nat.lt_irrefl _), rfl, rfl, rfl⟩
  | none =>
    have hsnapshots := snapshots_takeTurns (o := o) (Infrastructure.outputs r.graph) t (waiting r) r
    generalize hturns : takeTurns o (Infrastructure.outputs r.graph) t (waiting r) r = next at hsnapshots
    have hdispatch : dispatch o t r = if next.failure.isNone && progressed r next then
        { next with snapshots := next.snapshots ++ [next.graph] } else next := by
      rw [dispatch, hf, ← hturns]
      rfl
    cases hmoved : progressed r next with
    | false =>
      rw [hmoved, Bool.and_false, if_neg Bool.false_ne_true] at hdispatch
      have hstill : next.events.length ≤ r.events.length := Nat.le_of_not_lt (of_decide_eq_false hmoved)
      obtain ⟨failure, he⟩ := takeTurns_of_still (hturns ▸ hstill)
      rw [hdispatch]
      rw [hturns] at he
      exact Or.inl ⟨hmoved, he ▸ rfl, he ▸ rfl, hsnapshots⟩
    | true =>
      cases hnone : next.failure with
      | none =>
        have hshows : (next.failure.isNone && progressed r next) = true := by
          rw [hnone, hmoved]
          rfl
        rw [hdispatch, if_pos hshows, ← hsnapshots]
        exact Or.inr (Or.inl ⟨hnone, rfl⟩)
      | some e =>
        rw [hmoved, hnone] at hdispatch
        have hdispatch : dispatch o t r = next := hdispatch
        rw [Hides, hdispatch, hnone]
        exact Or.inr (Or.inr ⟨⟨rfl, hmoved⟩, hsnapshots⟩)

/-- Turns in which something happens make a call, if what needs no change is complete. -/
theorem exists_new_call_of_turns (hquiet : Quiet g) {outputs : Table Value} {queue : List InfraNode}
    (hp : Inv o g ⟨r, outputs, queue⟩) (ht : Traced g ⟨r, outputs, queue⟩)
    (hmoved : r.events.length < (takeTurns o outputs t queue r).events.length) :
    ∃ c ∈ (takeTurns o outputs t queue r).inFlight, c.id ∉ r.calls.map Call.id := by
  cases queue with
  | nil => exact absurd hmoved (Nat.lt_irrefl _)
  | cons n rest =>
    rw [takeTurns] at hmoved ⊢
    split at hmoved
    · exact absurd hmoved (Nat.lt_irrefl _)
    · rename_i hroom
      rw [if_neg hroom]
      split at hmoved
      · rename_i next hturn
        obtain ⟨-, hnc, -, -⟩ := hp.queued n List.mem_cons_self
        rcases turn_eq_ok hturn with ⟨hno, rfl⟩ | ⟨-, m, hm, rfl⟩
        · rw [hquiet n (ht.mem_of_queued hp List.mem_cons_self) hno] at hnc
          cases hnc
        · have hid : (callFor o m).id = n.id := (prepare_eq_ok hm).1.id
          refine ⟨callFor o m, ?_, hid ▸ hp.not_called⟩
          exact inFlight_subset_takeTurns _ _ _ _ (List.mem_append_right _ List.mem_cons_self)
      · exact absurd hmoved (Nat.lt_irrefl _)

/-- A stage in which something happens makes a call. -/
theorem exists_new_call (hquiet : Quiet g) {seen : Table Value} (hr : Reaches o (Point.start g) ⟨r, seen, []⟩)
    (hmoved : progressed r (dispatch o t r) = true) :
    ∃ c ∈ (dispatch o t r).inFlight, c.id ∉ r.calls.map Call.id := by
  have hmoved : r.events.length < (dispatch o t r).events.length := of_decide_eq_true hmoved
  rcases dispatch_cases o t r with ⟨-, he⟩ | ⟨hf, snapshots, he⟩
  · rw [he] at hmoved
    exact absurd hmoved (Nat.lt_irrefl _)
  · rw [he] at hmoved ⊢
    have hcollect := hr.tail (Move.collect hf)
    exact exists_new_call_of_turns hquiet (Inv.of_start hcollect) (Traced.of_start hcollect) hmoved

/-- A call that returns is shown at once, and others stay in flight; one that breaks off changes nothing. -/
theorem finish_shows (t : Instant) (c : Call) (outcome : Outcome) (r : Run) :
    ((∃ message, outcome = .broken message ∧ (finish t c outcome r).failure = some (.taskFailed message)) ∧
        (finish t c outcome r).graph = r.graph ∧ (finish t c outcome r).snapshots = r.snapshots) ∨
      ((finish t c outcome r).snapshots = r.snapshots ++ [(finish t c outcome r).graph] ∧
        (finish t c outcome r).inFlight = r.inFlight.filter (·.id ≠ c.id)) := by
  cases outcome with
  | returned response => exact Or.inr ⟨rfl, rfl⟩
  | failed e => exact Or.inr ⟨rfl, rfl⟩
  | broken message => exact Or.inl ⟨⟨message, rfl, rfl⟩, rfl, rfl⟩

/-! ### What is seen -/

/-- Whether calls are overlooked: a stage hides the calls that it has made, and the next call to come to its end is
one of them, or breaks off. -/
def Overlooked (o : RunOptions) (scheduler : Scheduler σ) (now : Instant) (g : Infrastructure) (s : σ) : Prop :=
  ∃ t r s' first rest, Round o scheduler now g s t r s' ∧ Hides o t r ∧ (dispatch o t r).inFlight = first :: rest ∧
    (scheduler.chosen s' first rest ∉ r.calls ∨
      ∃ message, (scheduler s' (first :: rest)).1.outcome = .broken message)

/-- Whether every call has been seen, and the graph as it is. -/
structure Seen (r : Run) : Prop where
  calls : ∀ c ∈ r.calls, ∃ h ∈ r.snapshots, phaseAt h c.id = some (working c.action)
  graph : r.calls ≠ [] → r.snapshots.getLast? = some r.graph

namespace Seen

/-- What is shown anew is seen, if each call was seen before or is in flight. -/
theorem of_concat (hs : Seen r) (hsnapshots : r'.snapshots = r.snapshots ++ [r'.graph])
    (hcalls : ∀ c ∈ r'.calls, c ∈ r.calls ∨ phaseAt r'.graph c.id = some (working c.action)) : Seen r' where
  calls := by
    intro c hc
    rw [hsnapshots]
    rcases hcalls c hc with hold | hnew
    · obtain ⟨h, hh, hphase⟩ := hs.calls c hold
      exact ⟨h, List.mem_append_left _ hh, hphase⟩
    · exact ⟨r'.graph, List.mem_append_right _ List.mem_cons_self, hnew⟩
  graph := fun _ => by rw [hsnapshots, List.getLast?_concat]

theorem of_same (hs : Seen r) (hgraph : r'.graph = r.graph) (hcalls : r'.calls = r.calls)
    (hsnapshots : r'.snapshots = r.snapshots) : Seen r' where
  calls := by
    rw [hcalls, hsnapshots]
    exact hs.calls
  graph := by
    rw [hcalls, hsnapshots, hgraph]
    exact hs.graph

/-- A stage that hides nothing is seen. -/
theorem dispatch (hs : Seen r)
    (hflying : ∀ c ∈ (Run.dispatch o t r).inFlight, phaseAt (Run.dispatch o t r).graph c.id = some (working c.action))
    (hnot : ¬ Hides o t r) : Seen (Run.dispatch o t r) := by
  rcases dispatch_shows o t r with ⟨-, hgraph, hcalls, hsnapshots⟩ | ⟨-, hsnapshots⟩ | ⟨hhides, -⟩
  · exact hs.of_same hgraph hcalls hsnapshots
  · exact hs.of_concat hsnapshots fun c hc => (calls_dispatch hc).imp_right (hflying c)
  · exact absurd hhides hnot

theorem finish (hs : Seen r) (t : Instant) (c : Call) (outcome : Outcome) : Seen (Run.finish t c outcome r) := by
  have hcalls := calls_finish t c outcome r
  rcases finish_shows t c outcome r with ⟨-, hgraph, hsnapshots⟩ | ⟨hsnapshots, -⟩
  · exact hs.of_same hgraph hcalls hsnapshots
  · refine hs.of_concat hsnapshots fun d hd => Or.inl ?_
    rw [hcalls] at hd
    exact hd

end Seen

/-- A node in flight has the phase of one that is with its plugin. -/
theorem phaseAt_of_flying (hquiet : Quiet g) (hr : ∃ seen, Reaches o (Point.start g) ⟨r, seen, []⟩) {c : Call}
    (hc : c ∈ r.inFlight) : phaseAt r.graph c.id = some (working c.action) := by
  obtain ⟨seen, hr⟩ := hr
  exact (Recorded.of_start hquiet hr).phaseAt_flying (Inv.of_start hr) (Ledger.of_start hr) hc

theorem Hides.snapshots_eq (hhides : Hides o t r) : (dispatch o t r).snapshots = r.snapshots := by
  obtain ⟨hfailed, hmoved⟩ := hhides
  rcases dispatch_shows o t r with ⟨hstill, -, -, hsnapshots⟩ | ⟨hnone, -⟩ | ⟨-, hsnapshots⟩
  · exact hsnapshots
  · rw [hnone] at hfailed
    cases hfailed
  · exact hsnapshots

/-- A stage that leaves nothing in flight hides nothing. -/
theorem not_hides_of_idle (hquiet : Quiet g) (hr : ∃ seen, Reaches o (Point.start g) ⟨r, seen, []⟩)
    (idle : (dispatch o t r).inFlight = []) : ¬ Hides o t r := by
  intro hhides
  obtain ⟨seen, hr⟩ := hr
  obtain ⟨c, hc, -⟩ := exists_new_call hquiet hr hhides.2
  rw [idle] at hc
  cases hc

/-- When a call that has been seen returns, the calls that a stage has hidden are seen as well. -/
theorem seen_of_hides (hquiet : Quiet g) (hs : Seen r)
    (hnext : ∃ seen, Reaches o (Point.start g) ⟨dispatch o t r, seen, []⟩) (hhides : Hides o t r) {c : Call}
    (hflies : c ∈ (dispatch o t r).inFlight) (hold : c ∈ r.calls) (now : Instant) {outcome : Outcome}
    (hnot : ¬ ∃ message, outcome = .broken message) : Seen (finish now c outcome (dispatch o t r)) := by
  obtain ⟨seen, hnext⟩ := hnext
  have hp : Inv o g ⟨dispatch o t r, seen, []⟩ := Inv.of_start hnext
  have hl : Ledger g ⟨dispatch o t r, seen, []⟩ := Ledger.of_start hnext
  rcases finish_shows now c outcome (dispatch o t r) with ⟨⟨message, hbroken, -⟩, -⟩ | ⟨hshows, hflight⟩
  · exact absurd ⟨message, hbroken⟩ hnot
  · rw [hhides.snapshots_eq] at hshows
    refine hs.of_concat hshows fun d hd => ?_
    rw [calls_finish] at hd
    rcases calls_dispatch hd with hd' | hd'
    · exact Or.inl hd'
    · by_cases hid : d.id = c.id
      · exact Or.inl (List.inj_on_of_nodup_map hp.calls_nodup hd (hl.flying hflies) hid ▸ hold)
      · -- a hidden call is still in flight, so it is shown by what the other call returns
        refine Or.inr (phaseAt_of_flying hquiet ⟨seen, hnext.tail (Move.finish hflies now outcome)⟩ ?_)
        rw [hflight]
        exact List.mem_filter.2 ⟨hd', decide_eq_true hid⟩

/-- **If no calls are overlooked, everything is seen** when a round begins. -/
theorem Round.seen (hquiet : Quiet g) (hnot : ¬ Overlooked o scheduler now g s)
    (hr : Round o scheduler now g s t r s') : Seen r := by
  induction hr with
  | first => exact ⟨nofun, fun h => absurd rfl h⟩
  | again before idle running moved ih =>
    exact ih.dispatch (fun c hc => phaseAt_of_flying hquiet (reaches_stage before.reaches _) hc)
      (not_hides_of_idle hquiet before.reaches idle)
  | arrival before flying ih =>
    rename_i t r s' first rest
    have hnext : ∃ seen, Reaches o (Point.start g) ⟨dispatch o t r, seen, []⟩ := reaches_stage before.reaches t
    by_cases hhides : Hides o t r
    · refine seen_of_hides hquiet ih hnext hhides (flying ▸ getD_mem_cons first rest _) ?_ _ fun hbroken => ?_
      · by_contra hnew
        exact hnot ⟨t, r, s', first, rest, before, hhides, flying, Or.inl hnew⟩
      · exact hnot ⟨t, r, s', first, rest, before, hhides, flying, Or.inr hbroken⟩
    · exact (ih.dispatch (fun c hc => phaseAt_of_flying hquiet hnext hc) hhides).finish _ _ _

/-- When a round begins the graph has been shown, unless a call broke off or there were no calls. -/
theorem Round.graph_shown (hr : Round o scheduler now g s t r s') (hcalls : r.calls ≠ []) :
    r.snapshots.getLast? = some r.graph ∨ ∃ message, r.failure = some (.taskFailed message) := by
  cases hr with
  | first => exact absurd rfl hcalls
  | again before idle running moved =>
    rename_i r
    rcases dispatch_shows o t r with ⟨hstill, -⟩ | ⟨-, hsnapshots⟩ | ⟨hhides, -⟩
    · rw [moved] at hstill
      cases hstill
    · exact Or.inl (by rw [hsnapshots, List.getLast?_concat])
    · rw [Hides, running] at hhides
      cases hhides.1
  | arrival before flying =>
    rename_i t r s' first rest
    rcases finish_shows (scheduler s' (first :: rest)).1.time (scheduler.chosen s' first rest)
      (scheduler s' (first :: rest)).1.outcome (dispatch o t r) with ⟨⟨message, -, hfailure⟩, -⟩ | ⟨hshows, -⟩
    · exact Or.inr ⟨message, hfailure⟩
    · exact Or.inl (by rw [hshows, List.getLast?_concat])

/-! ### The end of a run -/

/-- Whether those who watch a run see it as it is: each node is shown with its plugin before it is shown to have come
to its end, and in the end the graph is shown as it is left. -/
structure Faithful (g : Infrastructure) (r : Run) : Prop where
  courses : ∀ n ∈ g.nodes, ∃ before during after ending,
    Course n before during after ending ((trail g r).map fun h => phaseAt h n.id) ∧ (0 < after → 0 < during)
  graph : r.calls ≠ [] → r.snapshots.getLast? = some r.graph

theorem exists_last_stage (o : RunOptions) (scheduler : Scheduler σ) (now : Instant) (g : Infrastructure) (s : σ) :
    ∃ t r s', Round o scheduler now g s t r s' ∧ (execute o scheduler now g s).1 = dispatch o t r ∧
      (dispatch o t r).inFlight = [] := by
  obtain ⟨t, r, s', hr, he, idle⟩ := (loops_execute o scheduler now g s).exists_last .first
  exact ⟨t, r, s', hr, he, he ▸ idle⟩

theorem faithful_of_seen (hquiet : Quiet g) (hr : ∃ seen, Reaches o (Point.start g) ⟨r, seen, []⟩) (hs : Seen r) :
    Faithful g r where
  courses := by
    intro n hn
    obtain ⟨seen, hr⟩ := hr
    obtain ⟨before, during, after, ending, hcourse, hafter⟩ := (Recorded.of_start hquiet hr).course hn
    refine ⟨before, during, after, ending, hcourse, fun hpos => ?_⟩
    obtain ⟨hcalled, hduring⟩ := hafter hpos
    obtain ⟨c, hc, hid⟩ := List.mem_map.1 hcalled
    obtain ⟨h, hh, hphase⟩ := hs.calls c hc
    obtain ⟨m, hm, hmid, haction, -⟩ := (Inv.of_start hr).called c hc
    have hmn : m = n := Graph.eq_of_id_eq hm hn (hmid.trans hid)
    rw [hid, ← haction, hmn] at hphase
    exact hduring (List.mem_map.2 ⟨h, hh, hphase⟩)
  graph := hs.graph

theorem faithful_execute (hquiet : Quiet g) (hnot : ¬ Overlooked o scheduler now g s) :
    Faithful g (execute o scheduler now g s).1 := by
  obtain ⟨t, r, s', hr, he, idle⟩ := exists_last_stage o scheduler now g s
  rw [he]
  have hlast := reaches_stage hr.reaches t
  refine faithful_of_seen hquiet hlast ((hr.seen hquiet hnot).dispatch (fun c hc => ?_) ?_)
  · exact phaseAt_of_flying hquiet hlast hc
  · exact not_hides_of_idle hquiet hr.reaches idle

/-- The graph is shown as it is left, unless a call broke off or there were no calls. -/
theorem graph_shown_execute (hquiet : Quiet g) (hcalls : (execute o scheduler now g s).1.calls ≠ [])
    (hbroken : ∀ message, (execute o scheduler now g s).1.failure ≠ some (.taskFailed message)) :
    (execute o scheduler now g s).1.snapshots.getLast? = some (execute o scheduler now g s).1.graph := by
  obtain ⟨t, r, s', hr, he, idle⟩ := exists_last_stage o scheduler now g s
  rw [he] at hcalls hbroken ⊢
  rcases dispatch_shows o t r with ⟨-, hgraph, hsame, hsnapshots⟩ | ⟨-, hsnapshots⟩ | ⟨hhides, -⟩
  · rw [hsame] at hcalls
    rw [hgraph, hsnapshots]
    refine (hr.graph_shown hcalls).resolve_right fun h => ?_
    obtain ⟨message, hfailure⟩ := h
    rw [dispatch_of_failure (hfailure ▸ rfl)] at hbroken
    exact hbroken message hfailure
  · rw [hsnapshots, List.getLast?_concat]
  · exact absurd hhides (not_hides_of_idle hquiet hr.reaches idle)

/-! ### What is overlooked -/

/-- A run that overlooks calls has failed. -/
theorem failure_of_overlooked (h : Overlooked o scheduler now g s) :
    (execute o scheduler now g s).1.failure.isSome = true := by
  obtain ⟨t, r, s', first, rest, hr, hhides, flying, -⟩ := h
  obtain ⟨seen, hnext⟩ : ∃ seen, Reaches o (Point.start g) ⟨dispatch o t r, seen, []⟩ := reaches_stage hr.reaches t
  have hself : ∃ later, Reaches o ⟨dispatch o t r, seen, []⟩ ⟨dispatch o t r, later, []⟩ := ⟨seen, ReflTransGen.refl⟩
  obtain ⟨later, hlater⟩ := (hr.loops.of_arrival flying).reaches (reaches_arrival _ hself flying _ _ _)
  exact (failed_of_reaches (Inv.of_start hnext) hhides.1 hlater).2.1

/-- Calls are never taken back. -/
theorem calls_subset_of_reaches (h : Reaches o p q) : p.run.calls ⊆ q.run.calls := by
  induction h with
  | refl => exact List.Subset.refl _
  | tail _ hm ih =>
    refine List.Subset.trans ih ?_
    cases hm with
    | collect running => exact List.Subset.refl _
    | take room taken =>
      rcases turn_eq_ok taken with ⟨-, rfl⟩ | ⟨-, m, -, rfl⟩
      · exact (calls_passOver _ _ _).symm ▸ List.Subset.refl _
      · exact (calls_handOver _ _ _).symm ▸ List.subset_append_left _ _
    | refuse room refused => exact List.Subset.refl _
    | close full => exact List.Subset.refl _
    | report => exact List.Subset.refl _
    | finish flying now outcome => exact (calls_finish _ _ _ _).symm ▸ List.Subset.refl _

/-- Snapshots are never taken back. -/
theorem snapshots_prefix (h : Reaches o p q) : p.run.snapshots <+: q.run.snapshots := by
  induction h with
  | refl => exact List.prefix_refl _
  | tail _ hm ih =>
    refine ih.trans ?_
    cases hm with
    | collect running => exact List.prefix_refl _
    | take room taken =>
      rcases turn_eq_ok taken with ⟨-, rfl⟩ | ⟨-, m, -, rfl⟩
      · exact List.prefix_refl _
      · exact List.prefix_refl _
    | refuse room refused => exact List.prefix_refl _
    | close full => exact List.prefix_refl _
    | report => exact List.prefix_append _ _
    | finish flying now outcome =>
      rcases finish_shows now _ outcome _ with ⟨-, -, hsnapshots⟩ | ⟨hsnapshots, -⟩
      · exact hsnapshots ▸ List.prefix_refl _
      · exact hsnapshots ▸ List.prefix_append _ _

/-- A pending node that is next shown to have come to its end has missed its turn. -/
theorem Course.not_skipped {before during after a : Nat} {ending e : Phase} {more : List (Option Phase)}
    (hc : Course n before during after ending (List.replicate (a + 1) (some n.status.phase) ++ some e :: more))
    (hthrough : 0 < after → 0 < during) (hpending : n.status.phase = .pending)
    (hends : e = .complete ∨ e = .error) : False := by
  have hstarted : ∀ k (l : List (Option Phase)), (List.replicate k (some n.status.phase) ++ l).dropWhile
      (· = some n.status.phase) = l.dropWhile (· = some n.status.phase) := by
    intro k l
    refine List.dropWhile_append_of_pos fun x hx => ?_
    rw [List.eq_of_mem_replicate hx]
    exact decide_eq_true rfl
  have hne : e ≠ n.status.phase := by
    rw [hpending]
    rcases hends with rfl | rfl
    · exact nofun
    · exact nofun
  have hrow := congrArg (List.dropWhile (· = some n.status.phase)) hc.phases_eq
  rw [List.append_assoc, hstarted, hstarted,
    List.dropWhile_cons_of_neg (by simpa using hne)] at hrow
  cases during with
  | zero =>
    have hafter : after = 0 := Nat.eq_zero_of_not_pos fun hpos => absurd (hthrough hpos) (Nat.lt_irrefl 0)
    subst hafter
    cases hrow
  | succ during =>
    have hworking : working n.action ≠ n.status.phase := hpending ▸ working_ne_pending n.action
    rw [List.replicate_succ, List.cons_append, List.dropWhile_cons_of_neg (by simpa using hworking)] at hrow
    have he : e = working n.action := Option.some.inj (List.cons.inj hrow).1
    rcases hends with rfl | rfl
    · exact working_ne_complete _ he.symm
    · exact working_ne_error _ he.symm

/-- What was called was pending, if all nodes were complete or pending. -/
theorem exists_pending (hfresh : ∀ n ∈ g.nodes, n.isComplete = true ∨ n.status.phase = .pending)
    (hp : Reaches o (Point.start g) p) {c : Call} (hc : c ∈ p.run.calls) :
    ∃ n ∈ g.nodes, n.id = c.id ∧ n.status.phase = .pending := by
  obtain ⟨n, hn, hid, -⟩ := (Inv.of_start hp).called c hc
  refine ⟨n, hn, hid, (hfresh n hn).resolve_left fun hcomplete => ?_⟩
  rw [(Ledger.of_start hp).called c hc n hn hid] at hcomplete
  cases hcomplete

/-- The node of a call that returns has come to its end. -/
theorem phaseAt_finish {outputs : Table Value} (hp : Inv o g ⟨r, outputs, []⟩) {c : Call} (hc : c ∈ r.inFlight)
    (t : Instant) {outcome : Outcome} (hnot : ¬ ∃ message, outcome = .broken message) :
    ∃ e, (e = .complete ∨ e = .error) ∧ phaseAt (finish t c outcome r).graph c.id = some e := by
  obtain ⟨n, hn, hid, -⟩ := hp.flying c hc
  rw [← hid]
  cases outcome with
  | returned response => exact ⟨.complete, Or.inl rfl, phaseAt_new (replaces_returned hn hid t response)⟩
  | failed e => exact ⟨.error, Or.inr rfl, phaseAt_new (replaces_failed hn hid t e)⟩
  | broken message => exact absurd ⟨message, rfl⟩ hnot

/-- If a pending node is next shown to have come to its end, the run is not seen as it is. -/
theorem not_faithful_of_skipped {a : Nat} {e : Phase} (hn : n ∈ g.nodes) (hpending : n.status.phase = .pending)
    (hshown : shownOf g r n.id = List.replicate (a + 1) (some n.status.phase))
    (hsnapshots : r.snapshots ++ [h] <+: r'.snapshots) (hphase : phaseAt h n.id = some e)
    (hends : e = .complete ∨ e = .error) : ¬ Faithful g r' := by
  intro hfaithful
  obtain ⟨more, hmore⟩ := hsnapshots
  obtain ⟨before, during, after, ending, hcourse, hthrough⟩ := hfaithful.courses n hn
  have hrow : (trail g r').map (fun h => phaseAt h n.id) =
      List.replicate (a + 1) (some n.status.phase) ++ some e ::
        ((more ++ [r'.graph]).map fun h => phaseAt h n.id) := by
    rw [trail, ← hmore, ← hshown, shownOf, ← hphase]
    simp
  exact (hrow ▸ hcourse).not_skipped hthrough hpending hends

/-- What a stage hides has not been shown. -/
theorem Hides.graph_not_shown (hquiet : Quiet g)
    (hfresh : ∀ n ∈ g.nodes, n.isComplete = true ∨ n.status.phase = .pending) (hhides : Hides o t r)
    {seen : Table Value} (hr : Reaches o (Point.start g) ⟨r, seen, []⟩) : (dispatch o t r).graph ∉ r.snapshots := by
  intro hshown
  obtain ⟨c, hc, hnew⟩ := exists_new_call hquiet hr hhides.2
  obtain ⟨seen', hnext⟩ : ∃ seen, Reaches o (Point.start g) ⟨dispatch o t r, seen, []⟩ := reaches_stage ⟨seen, hr⟩ t
  have hl : Ledger g ⟨dispatch o t r, seen', []⟩ := Ledger.of_start hnext
  obtain ⟨n, hn, hid, hpending⟩ := exists_pending hfresh hnext (hl.flying hc)
  have hrecorded : Recorded g ⟨r, seen, []⟩ := Recorded.of_start hquiet hr
  -- up to now the node of the call has been shown as it was
  obtain ⟨a, hrow⟩ := (hrecorded.standing n hn).eq_replicate (hid ▸ hnew)
  have hmem : phaseAt (dispatch o t r).graph n.id ∈ shownOf g r n.id :=
    List.mem_map.2 ⟨_, List.mem_cons_of_mem _ hshown, rfl⟩
  rw [hrow, hid, phaseAt_of_flying hquiet ⟨seen', hnext⟩ hc] at hmem
  have hworking := Option.some.inj (List.eq_of_mem_replicate hmem)
  exact working_ne_pending _ (hworking.trans hpending)

/-- **A run that overlooks calls is not seen as it is**, if all nodes were complete or pending. -/
theorem not_faithful_of_overlooked (hquiet : Quiet g)
    (hfresh : ∀ n ∈ g.nodes, n.isComplete = true ∨ n.status.phase = .pending)
    (h : Overlooked o scheduler now g s) : ¬ Faithful g (execute o scheduler now g s).1 := by
  obtain ⟨t, r, s', first, rest, hr, hhides, flying, hcase⟩ := h
  obtain ⟨seen, hreaches⟩ := hr.reaches
  obtain ⟨seen', hstage⟩ : ∃ seen', Reaches o ⟨r, seen, []⟩ ⟨dispatch o t r, seen', []⟩ :=
    reaches_stage ⟨seen, ReflTransGen.refl⟩ t
  have hnext := hreaches.trans hstage
  have hp : Inv o g ⟨dispatch o t r, seen', []⟩ := Inv.of_start hnext
  have hl : Ledger g ⟨dispatch o t r, seen', []⟩ := Ledger.of_start hnext
  have hc : scheduler.chosen s' first rest ∈ (dispatch o t r).inFlight := flying ▸ getD_mem_cons first rest _
  have hend := hr.loops.of_arrival flying
  by_cases hbroken : ∃ message, (scheduler s' (first :: rest)).1.outcome = .broken message
  · -- the run is over, and what the stage has changed is never shown
    obtain ⟨message, hbroken⟩ := hbroken
    rw [hbroken] at hend
    intro hfaithful
    have hgraph := hfaithful.graph
    rw [hend.eq_of_failure rfl rfl] at hgraph
    have hlast : (dispatch o t r).snapshots.getLast? = some (dispatch o t r).graph :=
      hgraph (List.ne_nil_of_mem (hl.flying hc))
    rw [hhides.snapshots_eq] at hlast
    exact hhides.graph_not_shown hquiet hfresh hreaches (List.mem_of_getLast? hlast)
  · -- the call that returns was made in the stage, so its node is next shown to have come to its end
    have hnew := hcase.resolve_right hbroken
    obtain ⟨n, hn, hid, hpending⟩ := exists_pending hfresh hnext (hl.flying hc)
    have hfreshId : n.id ∉ r.calls.map Call.id := by
      intro hmem
      obtain ⟨d, hd, hdid⟩ := List.mem_map.1 hmem
      have hsame := List.inj_on_of_nodup_map hp.calls_nodup (calls_subset_of_reaches hstage hd) (hl.flying hc)
        (hdid.trans hid)
      exact hnew (hsame ▸ hd)
    have hrecorded : Recorded g ⟨r, seen, []⟩ := Recorded.of_start hquiet hreaches
    obtain ⟨a, hshown⟩ := (hrecorded.standing n hn).eq_replicate hfreshId
    obtain ⟨e, hends, hphase⟩ := phaseAt_finish hp hc (scheduler s' (first :: rest)).1.time hbroken
    obtain ⟨last, hlast⟩ := hend.reaches ⟨seen', ReflTransGen.refl⟩
    have hprefix := snapshots_prefix hlast
    rcases finish_shows (scheduler s' (first :: rest)).1.time (scheduler.chosen s' first rest)
      (scheduler s' (first :: rest)).1.outcome (dispatch o t r) with ⟨⟨message, hb, -⟩, -⟩ | ⟨hshows, -⟩
    · exact absurd ⟨message, hb⟩ hbroken
    · rw [hshows, hhides.snapshots_eq] at hprefix
      exact not_faithful_of_skipped hn hpending hshown hprefix (hid ▸ hphase) hends

/-! ### Runs and what is seen of them -/

/-- **What is seen of a run.**  If what needs no change is complete from the beginning, then whatever the graph, the
limit, the plugins and the order in which calls return: along the graphs that are shown each node keeps its phase,
is then with its plugin and then complete or in error, and it never goes back; in each of them what was called has
only complete nodes to depend on; and if anything was called and no call broke off, the last is the graph as it is
left.  Unless calls are overlooked, each node is also shown with its plugin before it comes to its end, and the last
graph that is shown is the one that is left even if a call broke off; if all nodes were complete or pending, then
exactly unless calls are overlooked. -/
theorem execute_shows (o : RunOptions) (scheduler : Scheduler σ) (now : Instant) {g : Infrastructure} (s : σ)
    (hquiet : Quiet g) :
    let r := (execute o scheduler now g s).1
    (∀ n ∈ g.nodes, ∃ before during after ending,
      Course n before during after ending ((trail g r).map fun h => phaseAt h n.id)) ∧
      (∀ h ∈ r.snapshots, Portrays o g r h) ∧
      (r.calls ≠ [] → (∀ message, r.failure ≠ some (.taskFailed message)) →
        r.snapshots.getLast? = some r.graph) ∧
      (¬ Overlooked o scheduler now g s → Faithful g r) ∧
      ((∀ n ∈ g.nodes, n.isComplete = true ∨ n.status.phase = .pending) →
        Overlooked o scheduler now g s → ¬ Faithful g r) := by
  intro r
  obtain ⟨seen, hr⟩ := reaches_execute o scheduler now g s
  refine ⟨fun n hn => ?_, fun h hh => portrays_of_mem_snapshots hquiet hr hh, graph_shown_execute hquiet,
    faithful_execute hquiet, not_faithful_of_overlooked hquiet⟩
  obtain ⟨before, during, after, ending, hcourse, -⟩ := (Recorded.of_start hquiet hr).course hn
  exact ⟨before, during, after, ending, hcourse⟩

/-- A service whose database is new, with a log that needs no change and a queue that is to go. -/
def rollout : Infrastructure :=
  Graph.ofParts
    [Plan.sample "app" .update .pending, Plan.sample "db" .create .pending, Plan.sample "log" .noOp .complete,
      Plan.sample "queue" .delete .pending]
    [⟨"module/app@blue", "module/db@blue"⟩]

/-- The rollout is seen as it is, from the first call to the last. -/
theorem execute_shows_rollout :
    Quiet rollout ∧
      (Rehearsal.execute ⟨2, none⟩ [] rollout).calls.map Call.id =
        ["module/db@blue", "module/queue@blue", "module/app@blue"] ∧
      Faithful rollout (Rehearsal.execute ⟨2, none⟩ [] rollout) := by
  have hquiet : Quiet rollout := by
    unfold Quiet
    decide +kernel
  have hsuccess : (Rehearsal.execute ⟨2, none⟩ [] rollout).failure.isSome = false := by decide +kernel
  have hnot : ¬ Overlooked ⟨2, none⟩ (Rehearsal.scheduler []) Instant.epoch rollout Rehearsal.start := by
    intro h
    exact Bool.eq_false_iff.1 hsuccess (failure_of_overlooked h)
  obtain ⟨-, -, -, hfaithful, -⟩ :=
    execute_shows ⟨2, none⟩ (Rehearsal.scheduler []) Instant.epoch Rehearsal.start hquiet
  exact ⟨hquiet, by decide +kernel, hfaithful hnot⟩

/-- A node that refers to one that is not there. -/
def stray : InfraNode :=
  { Plan.sample "b" .create .pending with
    inputs := .obj [("x", .str "$\x7b\x7b module/missing@blue.id \x7d\x7d")] }

/-- It has its turn after another node, in the same stage. -/
def severed : Infrastructure := Graph.ofParts [Plan.sample "a" .create .pending, stray] []

/-- **A call that is overlooked.**  The first node goes from pending to complete in all that is shown; and if its call
breaks off, nothing is shown at all, though it was called and is left with its plugin. -/
theorem call_overlooked :
    Quiet severed ∧ ¬ Faithful severed (Rehearsal.execute ⟨2, none⟩ [] severed) ∧
      ¬ Faithful severed (Rehearsal.execute ⟨2, none⟩
        [("module/a@blue", { Part.usual with breaksOff := true })] severed) := by
  have hquiet : Quiet severed := by
    unfold Quiet
    decide +kernel
  refine ⟨hquiet, fun hfaithful => ?_, fun hfaithful => ?_⟩
  · have hrow : (trail severed (Rehearsal.execute ⟨2, none⟩ [] severed)).map
        (fun h => phaseAt h "module/a@blue") = [some .pending, some .complete, some .complete] := by decide +kernel
    obtain ⟨before, during, after, ending, hcourse, hthrough⟩ :=
      hfaithful.courses (Plan.sample "a" .create .pending) (by decide +kernel)
    have hid : (Plan.sample "a" .create .pending).id = "module/a@blue" := by decide
    rw [hid, hrow] at hcourse
    have hcourse : Course (Plan.sample "a" .create .pending) before during after ending
        (List.replicate (0 + 1) (some .pending) ++ some .complete :: [some .complete]) := hcourse
    exact hcourse.not_skipped hthrough rfl (Or.inl rfl)
  · have hcalls : (Rehearsal.execute ⟨2, none⟩
        [("module/a@blue", { Part.usual with breaksOff := true })] severed).calls ≠ [] := by decide +kernel
    have hnone : (Rehearsal.execute ⟨2, none⟩
        [("module/a@blue", { Part.usual with breaksOff := true })] severed).snapshots.length = 0 := by
      decide +kernel
    have hlast := hfaithful.graph hcalls
    rw [List.length_eq_zero_iff.1 hnone] at hlast
    cases hlast

end Groundwork.Run
