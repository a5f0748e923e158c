import Groundwork.Proofs.Run.Invariant

/-!
# Safe scheduling

Whatever the scheduler and the plugins do, a run hands a node to its plugin only when all that the node
depends on is there and complete, hands over no node twice, never hands over a node that needs no change,
keeps to its limit, and starts nothing after a failure.

Main statements: a failure stops all further calls (`calls_eq_of_failure`), a node with a reference that
cannot be resolved is one (`calls_eq_of_refused`), and all moments of a run are safe (`execute_safe`).
-/

namespace Groundwork.Run

open Relation
open Infrastructure

variable {o : RunOptions} {g : Infrastructure}

/-! ### Failures -/

/-- Between stages a run that has failed can only wait for its calls. -/
theorem Move.of_failure {p q : Point} (hm : Move o p q) (hqueue : p.queue = [])
    (hf : p.run.failure.isSome = true) :
    q.queue = [] ∧ q.run.failure.isSome = true ∧ q.run.calls = p.run.calls := by
  cases hm with
  | collect running =>
    rw [running] at hf
    cases hf
  | take room taken => cases hqueue
  | refuse room refused => cases hqueue
  | close full => cases hqueue
  | report => exact ⟨rfl, hf, rfl⟩
  | finish flying now outcome => exact ⟨rfl, failure_finish hf, calls_finish now _ outcome _⟩

/-- A run that has failed stays so, begins no stage and starts nothing. -/
theorem failed_of_reaches {p q : Point} (hp : Inv o g p) (hf : p.run.failure.isSome = true)
    (h : Reaches o p q) : q.queue = [] ∧ q.run.failure.isSome = true ∧ q.run.calls = p.run.calls := by
  have hqueue : p.queue = [] := by
    by_contra hne
    rw [hp.running hne] at hf
    cases hf
  induction h with
  | refl => exact ⟨hqueue, hf, rfl⟩
  | tail _ hm ih =>
    obtain ⟨hq, hfq, hcalls⟩ := hm.of_failure ih.1 ih.2.1
    exact ⟨hq, hfq, hcalls.trans ih.2.2⟩

/-- **After a failure nothing is started any more.** -/
theorem calls_eq_of_failure {p q : Point} (hp : Inv o g p) (hf : p.run.failure.isSome = true)
    (h : Reaches o p q) : q.run.calls = p.run.calls :=
  (failed_of_reaches hp hf h).2.2

/-- Whether a turn can be taken does not depend on the time. -/
theorem turn_isOk_iff {outputs : Table Value} {now : Instant} {r : Run} {n : InfraNode} :
    (∃ next, turn o outputs now r n = .ok next) ↔
      n.action = .noOp ∨ n.action = .delete ∨ ∃ v, Reference.resolve outputs n.inputs = .ok v := by
  constructor
  · rintro ⟨next, h⟩
    rcases turn_eq_ok h with ⟨hno, -⟩ | ⟨-, m, hm, -⟩
    · exact Or.inl hno
    · rcases prepare_cases hm with ⟨hdelete, -⟩ | ⟨-, inputs, hinputs, -⟩
      · exact Or.inr (Or.inl hdelete)
      · exact Or.inr (Or.inr ⟨inputs, hinputs⟩)
  · intro h
    cases hturn : turn o outputs now r n with
    | ok next => exact ⟨next, rfl⟩
    | error e =>
      obtain ⟨hno, hdelete, cause, hcause, -⟩ := turn_eq_error hturn
      rcases h with h | h | ⟨v, hv⟩
      · exact absurd h hno
      · exact absurd h hdelete
      · rw [hcause] at hv
        cases hv

/-- **After a reference that could not be resolved nothing is started any more.** -/
theorem calls_eq_of_refused {p q : Point} (hp : Inv o g p) {n : InfraNode} {rest : List InfraNode}
    (hqueue : p.queue = n :: rest) {now : Instant} {e : RunError}
    (refused : turn o p.outputs now p.run n = .error e) (h : Reaches o p q) (hne : q ≠ p)
    (room : p.run.inFlight.length < o.limit) : q.run.calls = p.run.calls := by
  rcases h.cases_head with rfl | ⟨s, hm, hs⟩
  · exact absurd rfl hne
  · have hinv := hp.move hm
    cases hm with
    | collect running => cases hqueue
    | take _ taken =>
      cases hqueue
      have hok := turn_isOk_iff.1 ⟨_, taken⟩
      obtain ⟨next, hnext⟩ := turn_isOk_iff.2 hok
      rw [refused] at hnext
      cases hnext
    | refuse _ _ =>
      have hcalls := calls_eq_of_failure hinv rfl hs
      exact hcalls
    | close full => exact absurd full (Nat.not_le_of_lt room)
    | report => cases hqueue
    | finish flying now outcome => cases hqueue

/-! ### Safety -/

/-- A new call is about a node of the queue, prepared by the outputs that the stage sees. -/
theorem Move.exists_prepared {p q : Point} (hm : Move o p q) {c : Call} (hc : c ∈ q.run.calls)
    (hnew : c ∉ p.run.calls) : ∃ n ∈ p.queue, ∃ m now, prepare p.outputs now n = .ok m ∧ c = callFor o m := by
  cases hm with
  | collect running => exact absurd hc hnew
  | take room taken =>
    rcases turn_eq_ok taken with ⟨-, rfl⟩ | ⟨-, m, hprepared, rfl⟩
    · rw [calls_passOver] at hc
      exact absurd hc hnew
    · rw [calls_handOver] at hc
      have hcall := List.mem_singleton.1 ((List.mem_append.1 hc).resolve_left hnew)
      exact ⟨_, List.mem_cons_self, m, _, hprepared, hcall⟩
  | refuse room refused => exact absurd hc hnew
  | close full => exact absurd hc hnew
  | report => exact absurd hc hnew
  | finish flying now outcome =>
    rw [calls_finish] at hc
    exact absurd hc hnew

/-- What is safe about a moment of a run of a graph. -/
structure Safe (o : RunOptions) (g : Infrastructure) (p : Point) : Prop where
  /-- Not more calls are in flight than the limit allows. -/
  bound : p.run.inFlight.length ≤ max o.concurrency 1
  /-- No node was called twice. -/
  once : (p.run.calls.map Call.id).Nodup
  /-- Every call is about a node of the graph that needs a change. -/
  changes : ∀ c ∈ p.run.calls, ∃ n ∈ g.nodes, n.id = c.id ∧ n.action = c.action ∧ n.action ≠ .noOp
  /-- What is called next depends on complete nodes only, and nothing has failed. -/
  ordered : ∀ q, Move o p q → ∀ c ∈ q.run.calls, c ∉ p.run.calls → p.run.failure = none ∧
    ∀ e ∈ g.edges, e.source = c.id → ∃ m ∈ p.run.graph.nodes, m.id = e.target ∧ m.isComplete = true
  /-- After a failed call nothing is started any more. -/
  halted : p.run.failure.isSome = true ∨ (∃ x ∈ p.run.results, x.success = false) →
    ∀ q, Reaches o p q → q.run.calls = p.run.calls
  /-- Nor after a reference that could not be resolved. -/
  refused : ∀ n rest now e, p.queue = n :: rest → p.run.inFlight.length < o.limit →
    turn o p.outputs now p.run n = .error e → ∀ q, Reaches o p q → q.run.calls = p.run.calls

theorem Inv.safe {p : Point} (hp : Inv o g p) : Safe o g p where
  bound := hp.bound
  once := hp.calls_nodup
  changes := hp.called
  ordered := by
    intro q hm c hc hnew
    obtain ⟨n, hn, m, start, hprepared, rfl⟩ := hm.exists_prepared hc hnew
    have hid : (callFor o m).id = n.id := (prepare_eq_ok hprepared).1.id
    refine ⟨hp.running (List.ne_nil_of_mem hn), fun e he hs => ?_⟩
    obtain ⟨-, -, -, hu⟩ := hp.queued n hn
    rw [← hp.edges] at he
    exact isCompleteId_iff.1 (isUnblocked_iff.1 hu e he (hs.trans hid))
  halted := by
    rintro (hf | ⟨x, hx, hfail⟩) q hq
    · exact calls_eq_of_failure hp hf hq
    · exact calls_eq_of_failure hp (hp.failed x hx hfail) hq
  refused := by
    intro n rest now e hqueue room hturn q hq
    by_cases hne : q = p
    · rw [hne]
    · exact calls_eq_of_refused hp hqueue hturn hq hne room

/-- Every call that came about between two moments was made by a move on the way. -/
theorem exists_move_of_call {p q : Point} (h : Reaches o p q) {c : Call} (hc : c ∈ q.run.calls)
    (hnew : c ∉ p.run.calls) :
    ∃ x y, Reaches o p x ∧ Move o x y ∧ Reaches o y q ∧ c ∈ y.run.calls ∧ c ∉ x.run.calls := by
  induction h with
  | refl => exact absurd hc hnew
  | tail hpx hm ih =>
    rename_i x y
    by_cases hx : c ∈ x.run.calls
    · obtain ⟨v, w, hpv, hvw, hwx, hcw, hcv⟩ := ih hx
      exact ⟨v, w, hpv, hvw, hwx.tail hm, hcw, hcv⟩
    · exact ⟨x, y, hpx, hm, ReflTransGen.refl, hc, hx⟩

/-- **Every moment of a run is safe**, whatever the scheduler and the plugins do: moves lead from the
beginning of a run to its end and make all its calls on the way, and no sequence of moves from the beginning
leads to a moment that is not safe. -/
theorem execute_safe {σ : Type} (o : RunOptions) (scheduler : Scheduler σ) (now : Instant) (g : Infrastructure)
    (s : σ) :
    (∃ seen, Reaches o (Point.start g) ⟨(execute o scheduler now g s).1, seen, []⟩ ∧
      ∀ c ∈ (execute o scheduler now g s).1.calls, ∃ p q, Reaches o (Point.start g) p ∧ Move o p q ∧
        Reaches o q ⟨(execute o scheduler now g s).1, seen, []⟩ ∧ c ∈ q.run.calls ∧ c ∉ p.run.calls) ∧
      ∀ p, Reaches o (Point.start g) p → Safe o g p := by
  obtain ⟨seen, hreaches⟩ := reaches_execute o scheduler now g s
  refine ⟨⟨seen, hreaches, fun c hc => ?_⟩, fun p hp => (Inv.of_start hp).safe⟩
  exact exists_move_of_call hreaches hc fun h => by cases h

end Groundwork.Run
