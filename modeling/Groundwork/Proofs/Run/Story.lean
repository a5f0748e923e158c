import Groundwork.Proofs.Run.Rest

/-!
# What a run notices

A run notices two kinds of things: that a call has come to its end, and that a reference of a node whose turn it
is is not found.  Its story is the list of what it has noticed, in order.  Each notice may tell of a failure, and
the first that does is the one the run reports.

Who decides in what order calls return may also write down what it decides; that does not change the run.

Main statements: every run has a story, in which calls return as the scheduler has written down
(`story_execute`); in the story of a run that does not report a broken call no call broke off
(`Story.unbroken`).
-/

namespace Groundwork.Run

open Relation
open Infrastructure

variable {o : RunOptions} {g : Infrastructure} {p q : Point} {σ : Type}

/-! ### Notices -/

/-- What a run notices. -/
inductive Notice where
  /-- A call has come to its end. -/
  | ended (c : Call) (outcome : Outcome)
  /-- A reference of a node is not found. -/
  | refused (id : String) (cause : ExpressionError)
  deriving DecidableEq

namespace Notice

/-- The failure that a notice tells of. -/
def failure? : Notice → Option RunError
  | .ended _ (.returned _) => none
  | .ended c (.failed e) => some (.nodeFailed c.id e.message)
  | .ended _ (.broken message) => some (.taskFailed message)
  | .refused id cause => some (.unresolvedReference id cause)

/-- The call that a notice is about, with its end. -/
def ended? : Notice → Option (Call × Outcome)
  | .ended c outcome => some (c, outcome)
  | .refused _ _ => none

end Notice

/-- The calls that have come to their ends, in order. -/
def endings (story : List Notice) : List (Call × Outcome) := story.filterMap Notice.ended?

theorem endings_append (story more : List Notice) : endings (story ++ more) = endings story ++ endings more :=
  List.filterMap_append

theorem endings_concat_ended (story : List Notice) (c : Call) (outcome : Outcome) :
    endings (story ++ [.ended c outcome]) = endings story ++ [(c, outcome)] := endings_append _ _

theorem endings_concat_refused (story : List Notice) (id : String) (cause : ExpressionError) :
    endings (story ++ [.refused id cause]) = endings story :=
  (endings_append _ _).trans (List.append_nil _)

/-! ### Stories -/

/-- Whether a run of a graph can come to a moment and have noticed this by then. -/
inductive Story (o : RunOptions) (g : Infrastructure) : List Notice → Point → Prop
  | start : Story o g [] (Point.start g)
  /-- A move at which there is nothing to notice: no call returns and nothing fails. -/
  | quiet {story : List Notice} {p q : Point} (before : Story o g story p) (move : Move o p q)
      (kept : p.run.inFlight ⊆ q.run.inFlight) (same : q.run.failure = p.run.failure) : Story o g story q
  /-- A reference of the first node of the queue is not found. -/
  | refuse {story : List Notice} {r : Run} {outputs : Table Value} {n : InfraNode} {rest : List InfraNode}
      {now : Instant} {cause : ExpressionError} (before : Story o g story ⟨r, outputs, n :: rest⟩)
      (room : r.inFlight.length < o.limit)
      (refused : turn o outputs now r n = .error (.unresolvedReference n.id cause)) :
      Story o g (story ++ [.refused n.id cause])
        ⟨{ r with failure := some (.unresolvedReference n.id cause) }, outputs, []⟩
  /-- A call in flight comes to its end. -/
  | finish {story : List Notice} {r : Run} {outputs : Table Value} {c : Call}
      (before : Story o g story ⟨r, outputs, []⟩) (flying : c ∈ r.inFlight) (now : Instant) (outcome : Outcome) :
      Story o g (story ++ [.ended c outcome]) ⟨Run.finish now c outcome r, outputs, []⟩

namespace Story

variable {story : List Notice}

theorem reaches (h : Story o g story p) : Reaches o (Point.start g) p := by
  induction h with
  | start => exact ReflTransGen.refl
  | quiet before move kept same ih => exact ih.tail move
  | refuse before room refused ih => exact ih.tail (Move.refuse room refused)
  | finish before flying now outcome ih => exact ih.tail (Move.finish flying now outcome)

theorem inv (h : Story o g story p) : Inv o g p := Inv.of_start h.reaches

theorem traced (h : Story o g story p) : Traced g p := Traced.of_start h.reaches

/-- What a move without a return adds to a story is about no call. -/
theorem exists_of_move (h : Story o g story p) (move : Move o p q) (kept : p.run.inFlight ⊆ q.run.inFlight) :
    ∃ later, Story o g later q ∧ endings later = endings story := by
  cases move with
  | collect running => exact ⟨_, h.quiet (Move.collect running) kept rfl, rfl⟩
  | take room taken =>
    refine ⟨_, h.quiet (Move.take room taken) kept ?_, rfl⟩
    rcases turn_eq_ok taken with ⟨-, rfl⟩ | ⟨-, m, -, rfl⟩
    · rfl
    · rfl
  | refuse room refused =>
    obtain ⟨-, -, cause, -, rfl⟩ := turn_eq_error refused
    exact ⟨_, h.refuse room refused, endings_concat_refused _ _ _⟩
  | close full => exact ⟨_, h.quiet (Move.close full) kept rfl, rfl⟩
  | report => exact ⟨_, h.quiet Move.report kept rfl, rfl⟩
  | finish flying now outcome =>
    -- a call that returns is no longer in flight
    exact absurd rfl (mem_inFlight_finish (kept flying)).2

/-- What stages add to a story is about no call. -/
theorem exists_of_stages (h : Story o g story p) (stages : ReachesBy (fun _ _ => False) o p q) :
    ∃ later, Story o g later q ∧ endings later = endings story := by
  induction stages with
  | refl => exact ⟨story, h, rfl⟩
  | tail _ move ih =>
    obtain ⟨between, hbetween, hsame⟩ := ih
    cases move with
    | stage move kept =>
      obtain ⟨later, hlater, hend⟩ := hbetween.exists_of_move move kept
      exact ⟨later, hlater, hend.trans hsame⟩
    | finish flying now allowed => exact allowed.elim

/-! ### Broken calls -/

/-- Whether no call broke off. -/
def Unbroken (story : List Notice) : Prop := ∀ c message, .ended c (.broken message) ∉ story

theorem Unbroken.left {more : List Notice} (h : Unbroken (story ++ more)) : Unbroken story :=
  fun c message hmem => h c message (List.mem_append_left more hmem)

/-- After a call broke off nothing is in flight, and that is what the run reports. -/
theorem failure_of_broken (h : Story o g story p) {c : Call} {message : String}
    (hc : .ended c (.broken message) ∈ story) :
    p.run.inFlight = [] ∧ ∃ message, p.run.failure = some (.taskFailed message) := by
  induction h with
  | start => cases hc
  | quiet before move kept same ih =>
    obtain ⟨hidle, last, hfailure⟩ := ih hc
    refine ⟨?_, last, same.trans hfailure⟩
    cases move with
    | collect running => exact hidle
    | take room taken =>
      have hrunning := before.inv.running (List.cons_ne_nil _ _)
      rw [hrunning] at hfailure
      cases hfailure
    | refuse room refused => exact hidle
    | close full => exact hidle
    | report => exact hidle
    | finish flying now outcome =>
      rw [hidle] at flying
      cases flying
  | refuse before room refused ih =>
    rcases List.mem_append.1 hc with hc | hc
    · obtain ⟨-, last, hfailure⟩ := ih hc
      have hrunning := before.inv.running (List.cons_ne_nil _ _)
      rw [hrunning] at hfailure
      cases hfailure
    · cases List.mem_singleton.1 hc
  | finish before flying now outcome ih =>
    rcases List.mem_append.1 hc with hc | hc
    · obtain ⟨hidle, -⟩ := ih hc
      rw [hidle] at flying
      cases flying
    · cases List.mem_singleton.1 hc
      exact ⟨rfl, message, rfl⟩

/-- **If a run does not report a broken call, none broke off.** -/
theorem unbroken (h : Story o g story p) (hne : ∀ message, p.run.failure ≠ some (.taskFailed message)) :
    Unbroken story := by
  intro c message hc
  obtain ⟨-, last, hfailure⟩ := h.failure_of_broken hc
  exact hne last hfailure

end Story

/-! ### Writing down what returns -/

/-- A scheduler that also writes down which calls it lets return, and with which outcomes. -/
def Scheduler.logging (scheduler : Scheduler σ) : Scheduler (σ × List (Call × Outcome)) := fun s flying =>
  let decision := scheduler s.1 flying
  let chosen := flying[decision.1.index]?.or flying.head?
  (decision.1, decision.2, s.2 ++ (chosen.map fun c => (c, decision.1.outcome)).toList)

/-- What a scheduler adds to what it has written down is the call that returns next. -/
theorem logging_cons (scheduler : Scheduler σ) (s : σ) (log : List (Call × Outcome)) (first : Call)
    (rest : List Call) :
    scheduler.logging (s, log) (first :: rest) = ((scheduler s (first :: rest)).1, (scheduler s (first :: rest)).2,
      log ++ [((first :: rest).getD (scheduler s (first :: rest)).1.index first,
        (scheduler s (first :: rest)).1.outcome)]) := by
  have hchosen : (first :: rest)[(scheduler s (first :: rest)).1.index]?.or (first :: rest).head? =
      some ((first :: rest).getD (scheduler s (first :: rest)).1.index first) := by
    rw [List.getD_eq_getElem?_getD, List.head?_cons, Option.or_some]
  dsimp only [Scheduler.logging]
  rw [hchosen]
  rfl

theorem drive_logging (scheduler : Scheduler σ) (arrivals : Nat) (r : Run) (s : σ) (log : List (Call × Outcome)) :
    (drive o scheduler.logging arrivals r (s, log)).1 = (drive o scheduler arrivals r s).1 := by
  induction arrivals generalizing r s log with
  | zero => rfl
  | succ arrivals ih =>
    rw [drive, drive]
    split
    · rfl
    · rw [logging_cons]
      exact ih _ _ _

/-- **Writing down what returns does not change the run.** -/
theorem execute_logging (o : RunOptions) (scheduler : Scheduler σ) (now : Instant) (g : Infrastructure) (s : σ)
    (log : List (Call × Outcome)) :
    (execute o scheduler.logging now g (s, log)).1 = (execute o scheduler now g s).1 :=
  drive_logging scheduler g.size _ s log

/-- The calls that return in a run, in order, with their outcomes. -/
def returns (o : RunOptions) (scheduler : Scheduler σ) (now : Instant) (g : Infrastructure) (s : σ) :
    List (Call × Outcome) :=
  (execute o scheduler.logging now g (s, [])).2.2

/-- Settling is stages without returns. -/
theorem stages_settleFor (o : RunOptions) (now : Instant) (rounds : Nat) (outputs : Table Value) (r : Run) :
    ∃ seen, ReachesBy (fun _ _ => False) o ⟨r, outputs, []⟩ ⟨settleFor o now rounds r, seen, []⟩ :=
  reaches_settleFor now rounds outputs r

theorem story_drive (scheduler : Scheduler σ) (arrivals : Nat) {story : List Notice} {outputs : Table Value}
    {r : Run} (h : Story o g story ⟨r, outputs, []⟩) (s : σ) :
    ∃ seen later,
      Story o g later ⟨(drive o scheduler.logging arrivals r (s, endings story)).1, seen, []⟩ ∧
        endings later = (drive o scheduler.logging arrivals r (s, endings story)).2.2 := by
  induction arrivals generalizing r s story outputs with
  | zero => exact ⟨outputs, story, h, rfl⟩
  | succ arrivals ih =>
    rw [drive]
    split
    · exact ⟨outputs, story, h, rfl⟩
    · rename_i first rest hcalls
      rw [logging_cons]
      have hflying : (first :: rest).getD (scheduler s (first :: rest)).1.index first ∈ r.inFlight :=
        hcalls ▸ getD_mem_cons first rest _
      have hfinish := h.finish hflying (scheduler s (first :: rest)).1.time (scheduler s (first :: rest)).1.outcome
      obtain ⟨seen, hstages⟩ := stages_settleFor o (scheduler s (first :: rest)).1.time _ outputs _
      obtain ⟨between, hbetween, hsame⟩ := hfinish.exists_of_stages hstages
      rw [endings_concat_ended] at hsame
      rw [← hsame]
      exact ih hbetween (scheduler s (first :: rest)).2

/-- **Every run has a story, in which calls return as the scheduler lets them.** -/
theorem story_execute (o : RunOptions) (scheduler : Scheduler σ) (now : Instant) (g : Infrastructure) (s : σ) :
    ∃ seen story, Story o g story ⟨(execute o scheduler now g s).1, seen, []⟩ ∧
      endings story = returns o scheduler now g s := by
  obtain ⟨outputs, hstages⟩ := stages_settleFor o now (g.size + 1) [] (Run.start g)
  obtain ⟨first, hfirst, hnone⟩ := (Story.start (o := o) (g := g)).exists_of_stages hstages
  have hnone : endings first = [] := hnone
  obtain ⟨seen, story, hstory, hend⟩ := story_drive scheduler g.size hfirst s
  rw [hnone] at hstory hend
  have hrun : (drive o scheduler.logging g.size (settleFor o now (g.size + 1) (Run.start g)) (s, [])).1 =
      (execute o scheduler now g s).1 := execute_logging o scheduler now g s []
  rw [hrun] at hstory
  exact ⟨seen, story, hstory, hend⟩

end Groundwork.Run
