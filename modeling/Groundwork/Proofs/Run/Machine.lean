import Groundwork.Run
import Mathlib.Logic.Relation

/-!
# Runs as machines

A run is carried out in stages, and this file cuts the stages into moves.  While it dispatches, a run goes
through a queue of nodes, collected at the beginning of the stage together with the outputs that references
see; each node of the queue takes its turn, unless the stage ends before.  Between stages any call in flight
may return, with any outcome at any time.

`Move` allows more than `execute` does: a stage can be repeated, and calls can return in any order.  What
holds at every point that moves reach therefore holds under every scheduler.  `MoveBy` allows a call to return
only with an outcome that it may have; so it can tell runs in which plugins answer by a rule.

Main statements: every run of `execute` is a sequence of moves (`reaches_execute`), and no call in it returns
otherwise than the scheduler lets it (`reachesBy_execute`).
-/

namespace Groundwork.Run

open Relation
open Infrastructure

/-- A moment of a run: how far it has come, the outputs that the turns of the present stage see, and the nodes
whose turns are left in it. -/
structure Point where
  run : Run
  outputs : Table Value
  queue : List InfraNode

/-- The beginning of a run. -/
def Point.start (g : Infrastructure) : Point := ⟨Run.start g, [], []⟩

/-- The nodes that are ready and not with their plugins. -/
def waiting (r : Run) : List InfraNode := (ready r.graph).filter fun n => !r.isInFlight n.id

/-- What can happen next at a moment of a run. -/
inductive Move (o : RunOptions) : Point → Point → Prop
  /-- A stage begins. -/
  | collect {r : Run} {outputs : Table Value} (running : r.failure = none) :
      Move o ⟨r, outputs, []⟩ ⟨r, Infrastructure.outputs r.graph, waiting r⟩
  /-- The first node of the queue takes its turn. -/
  | take {r next : Run} {outputs : Table Value} {n : InfraNode} {rest : List InfraNode} {now : Instant}
      (room : r.inFlight.length < o.limit) (taken : turn o outputs now r n = .ok next) :
      Move o ⟨r, outputs, n :: rest⟩ ⟨next, outputs, rest⟩
  /-- A reference of the first node of the queue cannot be resolved. -/
  | refuse {r : Run} {outputs : Table Value} {n : InfraNode} {rest : List InfraNode} {now : Instant}
      {e : RunError} (room : r.inFlight.length < o.limit) (refused : turn o outputs now r n = .error e) :
      Move o ⟨r, outputs, n :: rest⟩ ⟨{ r with failure := some e }, outputs, []⟩
  /-- The stage ends because enough calls are in flight. -/
  | close {r : Run} {outputs : Table Value} {n : InfraNode} {rest : List InfraNode}
      (full : o.limit ≤ r.inFlight.length) : Move o ⟨r, outputs, n :: rest⟩ ⟨r, outputs, []⟩
  /-- The graph is shown. -/
  | report {r : Run} {outputs : Table Value} :
      Move o ⟨r, outputs, []⟩ ⟨{ r with snapshots := r.snapshots ++ [r.graph] }, outputs, []⟩
  /-- A call in flight returns. -/
  | finish {r : Run} {outputs : Table Value} {c : Call} (flying : c ∈ r.inFlight) (now : Instant)
      (outcome : Outcome) : Move o ⟨r, outputs, []⟩ ⟨Run.finish now c outcome r, outputs, []⟩

/-- Whether one moment of a run can follow another. -/
abbrev Reaches (o : RunOptions) : Point → Point → Prop := ReflTransGen (Move o)

/-- What can happen next if calls return only with outcomes that they may have. -/
inductive MoveBy (may : Call → Outcome → Prop) (o : RunOptions) : Point → Point → Prop
  /-- A move within a stage: what is in flight stays in flight. -/
  | stage {p q : Point} (move : Move o p q) (kept : p.run.inFlight ⊆ q.run.inFlight) : MoveBy may o p q
  /-- A call in flight returns. -/
  | finish {r : Run} {outputs : Table Value} {c : Call} (flying : c ∈ r.inFlight) (now : Instant)
      {outcome : Outcome} (allowed : may c outcome) :
      MoveBy may o ⟨r, outputs, []⟩ ⟨Run.finish now c outcome r, outputs, []⟩

/-- Whether one moment of a run can follow another if calls return only with outcomes that they may have. -/
abbrev ReachesBy (may : Call → Outcome → Prop) (o : RunOptions) : Point → Point → Prop :=
  ReflTransGen (MoveBy may o)

/-- Whether a scheduler lets calls return only with outcomes that they may have. -/
def Scheduler.Obeys {σ : Type} (scheduler : Scheduler σ) (may : Call → Outcome → Prop) : Prop :=
  ∀ s first rest, may ((first :: rest).getD (scheduler s (first :: rest)).1.index first)
    (scheduler s (first :: rest)).1.outcome

variable {o : RunOptions} {σ : Type} {may : Call → Outcome → Prop}

theorem MoveBy.move {p q : Point} (h : MoveBy may o p q) : Move o p q := by
  cases h with
  | stage move kept => exact move
  | finish flying now allowed => exact Move.finish flying now _

theorem ReachesBy.reaches {p q : Point} (h : ReachesBy may o p q) : Reaches o p q :=
  ReflTransGen.mono (fun _ _ => MoveBy.move) _ _ h

/-- A turn takes no call back. -/
theorem inFlight_subset_turn {outputs : Table Value} {now : Instant} {r next : Run} {n : InfraNode}
    (h : turn o outputs now r n = .ok next) : r.inFlight ⊆ next.inFlight := by
  unfold turn at h
  split at h
  · cases h
    exact List.Subset.refl _
  · split at h
    · cases h
    · cases h
      exact List.subset_append_left _ _

/-! ### The stages of a run -/

theorem reaches_takeTurns (outputs : Table Value) (now : Instant) (l : List InfraNode) (r : Run) :
    ReachesBy may o ⟨r, outputs, l⟩ ⟨takeTurns o outputs now l r, outputs, []⟩ := by
  induction l generalizing r with
  | nil => exact ReflTransGen.refl
  | cons n rest ih =>
    rw [takeTurns]
    split
    · rename_i hfull
      exact ReflTransGen.single (MoveBy.stage (Move.close hfull) (List.Subset.refl _))
    · rename_i hroom
      have hroom : r.inFlight.length < o.limit := Nat.lt_of_not_le hroom
      cases hturn : turn o outputs now r n with
      | ok next => exact (ih next).head (MoveBy.stage (Move.take hroom hturn) (inFlight_subset_turn hturn))
      | error e =>
        exact ReflTransGen.single (MoveBy.stage (Move.refuse hroom hturn) (List.Subset.refl _))

theorem reaches_dispatch (outputs : Table Value) (now : Instant) (r : Run) :
    ∃ seen, ReachesBy may o ⟨r, outputs, []⟩ ⟨dispatch o now r, seen, []⟩ := by
  rw [dispatch]
  split
  · exact ⟨outputs, ReflTransGen.refl⟩
  · rename_i hfailure
    have hrunning : r.failure = none := by simpa using hfailure
    have hturns : ReachesBy may o ⟨r, outputs, []⟩
        ⟨takeTurns o (Infrastructure.outputs r.graph) now (waiting r) r, Infrastructure.outputs r.graph, []⟩ :=
      (reaches_takeTurns _ now (waiting r) r).head (MoveBy.stage (Move.collect hrunning) (List.Subset.refl _))
    refine ⟨Infrastructure.outputs r.graph, ?_⟩
    dsimp only
    split
    · exact hturns.tail (MoveBy.stage Move.report (List.Subset.refl _))
    · exact hturns

theorem reaches_settleFor (now : Instant) (rounds : Nat) (outputs : Table Value) (r : Run) :
    ∃ seen, ReachesBy may o ⟨r, outputs, []⟩ ⟨settleFor o now rounds r, seen, []⟩ := by
  induction rounds generalizing r outputs with
  | zero => exact ⟨outputs, ReflTransGen.refl⟩
  | succ rounds ih =>
    obtain ⟨seen, hfirst⟩ : ∃ seen, ReachesBy may o ⟨r, outputs, []⟩ ⟨dispatch o now r, seen, []⟩ :=
      reaches_dispatch outputs now r
    rw [settleFor]
    split
    · obtain ⟨later, hrest⟩ := ih seen (dispatch o now r)
      exact ⟨later, hfirst.trans hrest⟩
    · exact ⟨seen, hfirst⟩

/-- The call that a scheduler chooses is in flight, also if its index is out of range. -/
theorem getD_mem_cons (first : Call) (rest : List Call) (index : Nat) :
    (first :: rest).getD index first ∈ first :: rest := by
  rw [List.getD_eq_getElem?_getD]
  cases hget : (first :: rest)[index]? with
  | none => exact List.mem_cons_self
  | some c => exact List.mem_of_getElem? hget

theorem reaches_drive {scheduler : Scheduler σ} (h : scheduler.Obeys may) (arrivals : Nat)
    (outputs : Table Value) (r : Run) (s : σ) :
    ∃ seen, ReachesBy may o ⟨r, outputs, []⟩ ⟨(drive o scheduler arrivals r s).1, seen, []⟩ := by
  induction arrivals generalizing r s outputs with
  | zero => exact ⟨outputs, ReflTransGen.refl⟩
  | succ arrivals ih =>
    unfold drive
    split
    · exact ⟨outputs, ReflTransGen.refl⟩
    · rename_i first rest hcalls
      have hfinish : ReachesBy may o ⟨r, outputs, []⟩ ⟨_, outputs, []⟩ :=
        ReflTransGen.single (MoveBy.finish (hcalls ▸ getD_mem_cons first rest _)
          (scheduler s (first :: rest)).1.time (h s first rest))
      obtain ⟨seen, hsettle⟩ : ∃ seen, ReachesBy may o ⟨_, outputs, []⟩ ⟨settle o _ _, seen, []⟩ :=
        reaches_settleFor _ _ outputs _
      obtain ⟨later, hrest⟩ := ih seen _ (scheduler s (first :: rest)).2
      exact ⟨later, (hfinish.trans hsettle).trans hrest⟩

/-- **Every run is a sequence of moves in which calls return as the scheduler lets them.** -/
theorem reachesBy_execute (o : RunOptions) {scheduler : Scheduler σ} (h : scheduler.Obeys may) (now : Instant)
    (g : Infrastructure) (s : σ) :
    ∃ seen, ReachesBy may o (Point.start g) ⟨(execute o scheduler now g s).1, seen, []⟩ := by
  obtain ⟨seen, hsettle⟩ : ∃ seen, ReachesBy may o (Point.start g) ⟨settle o now (Run.start g), seen, []⟩ :=
    reaches_settleFor now (g.size + 1) [] (Run.start g)
  obtain ⟨later, hdrive⟩ := reaches_drive (o := o) h g.size seen (settle o now (Run.start g)) s
  exact ⟨later, hsettle.trans hdrive⟩

/-- **Every run is a sequence of moves**, whatever the scheduler does. -/
theorem reaches_execute (o : RunOptions) (scheduler : Scheduler σ) (now : Instant) (g : Infrastructure) (s : σ) :
    ∃ seen, Reaches o (Point.start g) ⟨(execute o scheduler now g s).1, seen, []⟩ := by
  have hany : scheduler.Obeys fun _ _ => True := fun _ _ _ => trivial
  obtain ⟨seen, h⟩ := reachesBy_execute o hany now g s
  exact ⟨seen, h.reaches⟩

end Groundwork.Run
