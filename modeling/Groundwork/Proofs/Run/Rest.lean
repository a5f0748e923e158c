import Groundwork.Proofs.Run.Ledger

/-!
# Runs come to rest

`execute` counts its rounds: a stage is repeated at most once for every node, and there are at most as many
arrivals as nodes.  `Loops` is the same loop without any count, and `execute` never runs into its own: a round
that is followed by another completes a node, and every call that returns adds a result.

Main statements: execution is the loop (`loops_execute`), so it comes to its end whatever the graph, the
scheduler and the plugins are; at the end nothing is in flight, and nothing can be started unless something
has failed (`atRest_execute`).
-/

namespace Groundwork.Run

open Relation
open Infrastructure

variable {o : RunOptions} {g : Infrastructure} {σ : Type} {scheduler : Scheduler σ}

/-- The loop of a run, for as long as it takes. -/
inductive Loops (o : RunOptions) (scheduler : Scheduler σ) : Instant → Run → σ → Run → σ → Prop
  /-- Nothing is in flight after a stage, but something has happened: there may be more to start. -/
  | again {now : Instant} {r r' : Run} {s s' : σ} (idle : (dispatch o now r).inFlight = [])
      (running : (dispatch o now r).failure = none) (moved : progressed r (dispatch o now r) = true)
      (on : Loops o scheduler now (dispatch o now r) s r' s') : Loops o scheduler now r s r' s'
  /-- Nothing is in flight after a stage, and nothing has happened or something has failed. -/
  | rest {now : Instant} {r : Run} {s : σ} (idle : (dispatch o now r).inFlight = [])
      (still : (dispatch o now r).failure.isSome = true ∨ progressed r (dispatch o now r) = false) :
      Loops o scheduler now r s (dispatch o now r) s
  /-- Calls are in flight after a stage, and one returns. -/
  | arrival {now : Instant} {r r' : Run} {s s' : σ} {first : Call} {rest : List Call}
      (flying : (dispatch o now r).inFlight = first :: rest)
      (on : Loops o scheduler (scheduler s (first :: rest)).1.time
        (finish (scheduler s (first :: rest)).1.time
          ((first :: rest).getD (scheduler s (first :: rest)).1.index first)
          (scheduler s (first :: rest)).1.outcome (dispatch o now r))
        (scheduler s (first :: rest)).2 r' s') : Loops o scheduler now r s r' s'

/-- Whether a run has nothing to wait for and, unless it has failed, nothing to start. -/
def AtRest (r : Run) : Prop := r.inFlight = [] ∧ (r.failure = none → ready r.graph = [])

/-! ### What a stage does -/

theorem inFlight_subset_takeTurns (outputs : Table Value) (now : Instant) (l : List InfraNode) (r : Run) :
    r.inFlight ⊆ (takeTurns o outputs now l r).inFlight := by
  induction l generalizing r with
  | nil => exact List.Subset.refl _
  | cons n rest ih =>
    rw [takeTurns]
    split
    · exact List.Subset.refl _
    · split
      · rename_i next hturn
        exact List.Subset.trans (inFlight_subset_turn hturn) (ih next)
      · exact List.Subset.refl _

/-- A turn adds one event. -/
theorem length_events_turn {outputs : Table Value} {now : Instant} {r next : Run} {n : InfraNode}
    (h : turn o outputs now r n = .ok next) : next.events.length = r.events.length + 1 := by
  rcases turn_eq_ok h with ⟨-, rfl⟩ | ⟨-, m, -, rfl⟩
  · exact List.length_append
  · exact List.length_append

theorem length_events_takeTurns (outputs : Table Value) (now : Instant) (l : List InfraNode) (r : Run) :
    r.events.length ≤ (takeTurns o outputs now l r).events.length := by
  induction l generalizing r with
  | nil => exact Nat.le_refl _
  | cons n rest ih =>
    rw [takeTurns]
    split
    · exact Nat.le_refl _
    · split
      · rename_i next hturn
        have hone := length_events_turn hturn
        have hrest := ih next
        omega
      · exact Nat.le_refl _

/-- A stage without events, after which nothing is in flight and nothing has failed, had an empty queue. -/
theorem queue_eq_nil_of_quiet {outputs : Table Value} {now : Instant} {l : List InfraNode} {r : Run}
    (idle : (takeTurns o outputs now l r).inFlight = []) (running : (takeTurns o outputs now l r).failure = none)
    (quiet : (takeTurns o outputs now l r).events.length ≤ r.events.length) : l = [] := by
  cases l with
  | nil => rfl
  | cons n rest =>
    rw [takeTurns] at idle running quiet
    split at running
    · rename_i hfull
      rw [if_pos hfull] at idle
      rw [idle] at hfull
      exact absurd (limit_pos o) (Nat.not_lt_of_le hfull)
    · rename_i hroom
      rw [if_neg hroom] at quiet
      split at running
      · rename_i next hturn
        rw [hturn] at quiet
        have hone := length_events_turn hturn
        have hrest := length_events_takeTurns (o := o) outputs now rest next
        have hle : (takeTurns o outputs now rest next).events.length ≤ r.events.length := quiet
        omega
      · cases running

/-- A stage is its turns, and perhaps a snapshot. -/
theorem dispatch_cases (o : RunOptions) (now : Instant) (r : Run) :
    (r.failure.isSome = true ∧ dispatch o now r = r) ∨
      (r.failure = none ∧ ∃ snapshots, dispatch o now r =
        { takeTurns o (outputs r.graph) now (waiting r) r with snapshots }) := by
  rw [dispatch]
  split
  · rename_i hf
    exact Or.inl ⟨hf, rfl⟩
  · rename_i hf
    refine Or.inr ⟨by simpa using hf, ?_⟩
    dsimp only
    split
    · exact ⟨_, rfl⟩
    · exact ⟨_, rfl⟩

/-- **After a stage without events nothing can be started.** -/
theorem atRest_dispatch {now : Instant} {r : Run} (idle : (dispatch o now r).inFlight = [])
    (still : (dispatch o now r).failure.isSome = true ∨ progressed r (dispatch o now r) = false) :
    AtRest (dispatch o now r) := by
  refine ⟨idle, fun running => ?_⟩
  rw [running] at still
  have hquiet : (dispatch o now r).events.length ≤ r.events.length := by
    have hnot : progressed r (dispatch o now r) = false := still.resolve_left Bool.false_ne_true
    exact Nat.le_of_not_lt (of_decide_eq_false hnot)
  rcases dispatch_cases o now r with ⟨hf, he⟩ | ⟨-, snapshots, he⟩
  · rw [he] at running
    rw [running] at hf
    cases hf
  · rw [he] at idle running hquiet ⊢
    have hwaiting : waiting r = [] := queue_eq_nil_of_quiet idle running hquiet
    rw [hwaiting] at idle ⊢
    show ready r.graph = []
    have hnone : r.inFlight = [] := idle
    -- nothing is in flight, so whatever is ready is in the queue
    have hready : waiting r = ready r.graph := by
      refine List.filter_eq_self.2 fun n _ => ?_
      rw [isInFlight, hnone]
      rfl
    exact hready ▸ hwaiting

theorem Loops.atRest {now : Instant} {r r' : Run} {s s' : σ} (h : Loops o scheduler now r s r' s') :
    AtRest r' := by
  induction h with
  | again idle running moved on ih => exact ih
  | rest idle still => exact atRest_dispatch idle still
  | arrival flying on ih => exact ih

/-! ### Rounds without calls -/

/-- How many nodes are not complete. -/
def unfinished (g : Infrastructure) : Nat := (g.ids.filter fun id => !isCompleteId g id).length

theorem unfinished_le_size (g : Infrastructure) : unfinished g ≤ g.size :=
  Nat.le_trans (List.length_filter_le _ _) (Nat.le_of_eq (List.length_map _))

/-- Completing a node leaves one less. -/
theorem unfinished_lt {g h : Infrastructure} {n m : InfraNode} (hr : Replaces g h n m)
    (hn : n.isComplete = false) (hm : m.isComplete = true) : unfinished h < unfinished g := by
  have hid : n.id ∉ h.ids.filter fun id => !isCompleteId h id := by
    intro hmem
    have hopen := (List.mem_filter.1 hmem).2
    rw [← hr.same.id, isCompleteId_of_mem hr.new_mem, hm] at hopen
    cases hopen
  have hnodup : (n.id :: h.ids.filter fun id => !isCompleteId h id).Nodup :=
    List.nodup_cons.2 ⟨hid, h.ids_nodup.filter _⟩
  have hsub : (n.id :: h.ids.filter fun id => !isCompleteId h id) ⊆
      g.ids.filter fun id => !isCompleteId g id := by
    intro id hmem
    rcases List.mem_cons.1 hmem with rfl | hmem
    · refine List.mem_filter.2 ⟨Graph.id_mem_ids hr.mem, ?_⟩
      rw [isCompleteId_of_mem hr.mem, hn]
      rfl
    · obtain ⟨hids, hopen⟩ := List.mem_filter.1 hmem
      refine List.mem_filter.2 ⟨hr.ids ▸ hids, ?_⟩
      cases hc : isCompleteId g id with
      | false => rfl
      | true =>
        rw [hr.isCompleteId_of hn hc] at hopen
        cases hopen
  have hperm : List.Subperm _ _ := hnodup.subperm hsub
  exact hperm.length_le

/-- In a stage that leaves nothing in flight every event completes a node. -/
theorem unfinished_takeTurns {outputs : Table Value} {now : Instant} {l : List InfraNode} {r : Run}
    (hp : Inv o g ⟨r, outputs, l⟩) (idle : (takeTurns o outputs now l r).inFlight = [])
    (running : (takeTurns o outputs now l r).failure = none) :
    unfinished (takeTurns o outputs now l r).graph + (takeTurns o outputs now l r).events.length ≤
      unfinished r.graph + r.events.length := by
  induction l generalizing r with
  | nil => exact Nat.le_refl _
  | cons n rest ih =>
    rw [takeTurns] at idle running ⊢
    split at running
    · rename_i hfull
      exact Nat.le_of_eq (by rw [if_pos hfull])
    · rename_i hroom
      rw [if_neg hroom] at idle ⊢
      split at running
      · rename_i next hturn
        rw [hturn] at idle
        have hnext := ih (hp.move (Move.take (Nat.lt_of_not_le hroom) hturn)) idle running
        have hone := length_events_turn hturn
        obtain ⟨hn, hnc, -, -⟩ := hp.queued n List.mem_cons_self
        rcases turn_eq_ok hturn with ⟨-, rfl⟩ | ⟨-, m, -, rfl⟩
        · have hless : unfinished (passOver now n r).graph < unfinished r.graph :=
            unfinished_lt (replaces_insertNode hn ⟨rfl, rfl, rfl, rfl, rfl, rfl⟩) hnc rfl
          show unfinished (takeTurns o outputs now rest (passOver now n r)).graph +
            (takeTurns o outputs now rest (passOver now n r)).events.length ≤ _
          omega
        · -- a call that was made is still in flight
          have hmem : callFor o m ∈ (takeTurns o outputs now rest (handOver o m r)).inFlight :=
            inFlight_subset_takeTurns outputs now rest _ (List.mem_append_right _ List.mem_cons_self)
          have hnil : (takeTurns o outputs now rest (handOver o m r)).inFlight = [] := idle
          rw [hnil] at hmem
          cases hmem
      · cases running

/-- **A round that is followed by another completes a node.** -/
theorem unfinished_dispatch {outputs : Table Value} {now : Instant} {r : Run} (hp : Inv o g ⟨r, outputs, []⟩)
    (idle : (dispatch o now r).inFlight = []) (running : (dispatch o now r).failure = none)
    (moved : progressed r (dispatch o now r) = true) :
    unfinished (dispatch o now r).graph < unfinished r.graph := by
  have hmoved : r.events.length < (dispatch o now r).events.length := of_decide_eq_true moved
  rcases dispatch_cases o now r with ⟨hf, he⟩ | ⟨hf, snapshots, he⟩
  · rw [he] at running
    rw [running] at hf
    cases hf
  · rw [he] at idle running hmoved ⊢
    have hle := unfinished_takeTurns (hp.move (Move.collect hf)) idle running
    show unfinished (takeTurns o (Infrastructure.outputs r.graph) now (waiting r) r).graph < _
    have hevents : r.events.length <
        (takeTurns o (Infrastructure.outputs r.graph) now (waiting r) r).events.length := hmoved
    omega

/-! ### Execution is the loop -/

/-- If the rounds suffice, settling is the loop up to the next arrival or the end. -/
theorem loops_settleFor {rounds : Nat} {outputs : Table Value} {now : Instant} {r r' : Run} {s s' : σ}
    (hp : Inv o g ⟨r, outputs, []⟩) (hrounds : unfinished r.graph < rounds)
    (idle : (settleFor o now rounds r).inFlight = [] → r' = settleFor o now rounds r ∧ s' = s)
    (flying : ∀ first rest, (settleFor o now rounds r).inFlight = first :: rest →
      Loops o scheduler (scheduler s (first :: rest)).1.time
        (finish (scheduler s (first :: rest)).1.time
          ((first :: rest).getD (scheduler s (first :: rest)).1.index first)
          (scheduler s (first :: rest)).1.outcome (settleFor o now rounds r))
        (scheduler s (first :: rest)).2 r' s') :
    Loops o scheduler now r s r' s' := by
  induction rounds generalizing r outputs with
  | zero => exact absurd hrounds (Nat.not_lt_zero _)
  | succ rounds ih =>
    rw [settleFor] at idle flying
    split at idle
    · rename_i hagain
      rw [if_pos hagain] at flying
      obtain ⟨⟨hidle, hrunning⟩, hmoved⟩ : ((dispatch o now r).inFlight = [] ∧
          (dispatch o now r).failure = none) ∧ progressed r (dispatch o now r) = true := by simpa using hagain
      have hless := unfinished_dispatch hp hidle hrunning hmoved
      obtain ⟨seen, hstage⟩ : ∃ seen, ReachesBy (fun _ _ => True) o ⟨r, outputs, []⟩
          ⟨dispatch o now r, seen, []⟩ := reaches_dispatch outputs now r
      exact Loops.again hidle hrunning hmoved
        (ih (hp.of_reaches hstage.reaches) (Nat.lt_of_lt_of_le hless (Nat.le_of_lt_succ hrounds)) idle flying)
    · rename_i hstop
      rw [if_neg hstop] at flying
      cases hflight : (dispatch o now r).inFlight with
      | nil =>
        obtain ⟨rfl, rfl⟩ := idle hflight
        refine Loops.rest hflight ?_
        rw [hflight] at hstop
        cases hf : (dispatch o now r).failure with
        | some e => exact Or.inl rfl
        | none =>
          rw [hf] at hstop
          exact Or.inr (by simpa using hstop)
      | cons first rest => exact Loops.arrival hflight (flying first rest hflight)

theorem loops_settle {outputs : Table Value} {now : Instant} {r r' : Run} {s s' : σ}
    (hp : Inv o g ⟨r, outputs, []⟩)
    (idle : (settle o now r).inFlight = [] → r' = settle o now r ∧ s' = s)
    (flying : ∀ first rest, (settle o now r).inFlight = first :: rest →
      Loops o scheduler (scheduler s (first :: rest)).1.time
        (finish (scheduler s (first :: rest)).1.time
          ((first :: rest).getD (scheduler s (first :: rest)).1.index first)
          (scheduler s (first :: rest)).1.outcome (settle o now r))
        (scheduler s (first :: rest)).2 r' s') :
    Loops o scheduler now r s r' s' :=
  loops_settleFor hp (Nat.lt_succ_of_le (unfinished_le_size _)) idle flying

theorem settle_of_failure {now : Instant} {r : Run} (h : r.failure.isSome = true) : settle o now r = r := by
  rw [settle, settleFor, dispatch_of_failure h]
  cases hf : r.failure with
  | none =>
    rw [hf] at h
    cases h
  | some e => simp

theorem drive_of_idle {r : Run} (h : r.inFlight = []) (arrivals : Nat) (s : σ) :
    drive o scheduler arrivals r s = (r, s) := by
  cases arrivals with
  | zero => rfl
  | succ arrivals =>
    rw [drive]
    split
    · rfl
    · rename_i hcalls
      rw [h] at hcalls
      cases hcalls

theorem drive_of_flying {r : Run} {first : Call} {rest : List Call} (h : r.inFlight = first :: rest)
    (arrivals : Nat) (s : σ) :
    drive o scheduler (arrivals + 1) r s =
      drive o scheduler arrivals (settle o (scheduler s (first :: rest)).1.time
        (finish (scheduler s (first :: rest)).1.time
          ((first :: rest).getD (scheduler s (first :: rest)).1.index first)
          (scheduler s (first :: rest)).1.outcome r)) (scheduler s (first :: rest)).2 := by
  rw [drive]
  split
  · rename_i hcalls
    rw [h] at hcalls
    cases hcalls
  · rename_i hcalls
    rw [h] at hcalls
    cases hcalls
    rfl

/-- Results are never taken back. -/
theorem length_results_mono {p q : Point} (h : Reaches o p q) :
    p.run.results.length ≤ q.run.results.length := by
  induction h with
  | refl => exact Nat.le_refl _
  | tail _ hm ih =>
    refine Nat.le_trans ih ?_
    cases hm with
    | collect running => exact Nat.le_refl _
    | take room taken =>
      rcases turn_eq_ok taken with ⟨-, rfl⟩ | ⟨-, m, -, rfl⟩
      · exact Nat.le_of_eq (congrArg List.length (results_passOver _ _ _).symm)
      · exact Nat.le_of_eq (congrArg List.length (results_handOver _ _ _).symm)
    | refuse room refused => exact Nat.le_refl _
    | close full => exact Nat.le_refl _
    | report => exact Nat.le_refl _
    | finish flying now outcome =>
      rw [results_finish, List.length_append]
      exact Nat.le_add_right _ _

/-- A call that returns adds a result, unless it broke off and ended the run. -/
theorem length_results_finish (now : Instant) (c : Call) (outcome : Outcome) (r : Run) :
    (finish now c outcome r).results.length = r.results.length + 1 ∨
      ((finish now c outcome r).inFlight = [] ∧ (finish now c outcome r).failure.isSome = true) := by
  cases outcome with
  | returned response =>
    refine Or.inl ?_
    rw [results_finish]
    exact List.length_append
  | failed e =>
    refine Or.inl ?_
    rw [results_finish]
    exact List.length_append
  | broken message => exact Or.inr ⟨rfl, rfl⟩

/-- Driving is the loop, if there is an arrival for every node that has no result, or the run was broken. -/
theorem loops_drive {arrivals : Nat} {outputs : Table Value} {now : Instant} {r : Run} {s : σ}
    (hr : Reaches o (Point.start g) ⟨r, outputs, []⟩)
    (h : g.size ≤ r.results.length + arrivals ∨ (r.inFlight = [] ∧ r.failure.isSome = true)) :
    Loops o scheduler now r s (drive o scheduler arrivals (settle o now r) s).1
      (drive o scheduler arrivals (settle o now r) s).2 := by
  induction arrivals generalizing r outputs now s with
  | zero =>
    have hp : Inv o g ⟨r, outputs, []⟩ := Inv.of_start hr
    refine loops_settle hp (fun _ => ⟨rfl, rfl⟩) fun first rest hflight => ?_
    have hnone : (settle o now r).inFlight = [] := by
      rcases h with h | ⟨hidle, hf⟩
      · obtain ⟨seen, hsettle⟩ : ∃ seen, ReachesBy (fun _ _ => True) o ⟨r, outputs, []⟩
            ⟨settle o now r, seen, []⟩ := reaches_settleFor now _ outputs r
        have hs := hr.trans hsettle.reaches
        have hle := (Ledger.of_start hs).length_le (Inv.of_start hs)
        have hmono := length_results_mono hsettle.reaches
        exact List.length_eq_zero_iff.1 (by simp only at hle hmono; omega)
      · rw [settle_of_failure hf]
        exact hidle
    rw [hnone] at hflight
    cases hflight
  | succ arrivals ih =>
    have hp : Inv o g ⟨r, outputs, []⟩ := Inv.of_start hr
    refine loops_settle hp (fun hidle => ?_) fun first rest hflight => ?_
    · rw [drive_of_idle hidle]
      exact ⟨rfl, rfl⟩
    · rw [drive_of_flying hflight]
      obtain ⟨seen, hsettle⟩ : ∃ seen, ReachesBy (fun _ _ => True) o ⟨r, outputs, []⟩
          ⟨settle o now r, seen, []⟩ := reaches_settleFor now _ outputs r
      have hmono := length_results_mono hsettle.reaches
      have hmem : (first :: rest).getD (scheduler s (first :: rest)).1.index first ∈
          (settle o now r).inFlight := hflight ▸ getD_mem_cons first rest _
      refine ih ((hr.trans hsettle.reaches).tail (Move.finish hmem _ _)) ?_
      rcases length_results_finish (scheduler s (first :: rest)).1.time
        ((first :: rest).getD (scheduler s (first :: rest)).1.index first)
        (scheduler s (first :: rest)).1.outcome (settle o now r) with hone | hbroken
      · rcases h with h | ⟨hidle, hf⟩
        · left
          simp only at hmono
          omega
        · rw [settle_of_failure hf, hidle] at hflight
          cases hflight
      · exact Or.inr hbroken

/-- **Execution is the loop**, so the loop comes to its end. -/
theorem loops_execute (o : RunOptions) (scheduler : Scheduler σ) (now : Instant) (g : Infrastructure) (s : σ) :
    Loops o scheduler now (Run.start g) s (execute o scheduler now g s).1 (execute o scheduler now g s).2 :=
  loops_drive ReflTransGen.refl (Or.inl (Nat.le_add_left _ _))

/-- **In the end nothing is in flight, and nothing can be started unless something has failed.** -/
theorem atRest_execute (o : RunOptions) (scheduler : Scheduler σ) (now : Instant) (g : Infrastructure) (s : σ) :
    AtRest (execute o scheduler now g s).1 :=
  (loops_execute o scheduler now g s).atRest

/-! ### The end of a run -/

/-- The end of a run is good exactly if nothing has failed and all nodes are complete. -/
theorem outcome_eq_ok_iff {r : Run} {results : List NodeResult} :
    r.outcome = .ok results ↔
      r.failure = none ∧ (∀ m ∈ r.graph.nodes, m.isComplete = true) ∧ results = r.results := by
  have hpending : ((r.graph.nodes.filter (!·.isComplete)).map (·.id)).isEmpty = true ↔
      ∀ m ∈ r.graph.nodes, m.isComplete = true := by
    rw [List.isEmpty_iff, List.map_eq_nil_iff, List.filter_eq_nil_iff]
    exact forall₂_congr fun m _ => by simp
  unfold outcome
  cases hf : r.failure with
  | some e => simp
  | none =>
    dsimp only
    split
    · rename_i hnone
      rw [hpending] at hnone
      simp only [Except.ok.injEq, true_and]
      exact ⟨fun h => ⟨hnone, h.symm⟩, fun h => h.2.symm⟩
    · rename_i hsome
      rw [hpending] at hsome
      simp [hsome]

theorem outcome_of_failure {r : Run} {e : RunError} (h : r.failure = some e) : r.outcome = .error e := by
  unfold outcome
  rw [h]

/-- The end of a run is bad because something has failed, or because nodes are left over. -/
theorem failure_of_outcome {r : Run} {e : RunError} (h : r.outcome = .error e)
    (hne : ∀ pending, e ≠ .invariantViolation pending) : r.failure = some e := by
  unfold outcome at h
  cases hf : r.failure with
  | some e' =>
    rw [hf] at h
    exact congrArg some (Except.error.inj h)
  | none =>
    rw [hf] at h
    dsimp only at h
    split at h
    · cases h
    · exact absurd (Except.error.inj h).symm (hne _)

end Groundwork.Run
