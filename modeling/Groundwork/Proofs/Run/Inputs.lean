import Groundwork.Proofs.Reference.Renaming
import Groundwork.Proofs.Run.Invariant

/-!
# What nodes are called with

A node goes to its plugin with its references resolved by the outputs of nodes that are complete at that
time.  What is complete stays as it is, so the same outputs are there at every later moment, and the inputs
of a node that is complete in the end can be told from the plan and from the outputs in the end.

Main statements: complete nodes stay (`Inv.complete_mem_of_reaches`); a node that has just become complete
was called with what it got (`Traced.complete_or_called`); so what holds of complete nodes can be shown in
the order in which they became complete (`completed_induction`).
-/

namespace Groundwork.Run

open Relation
open Infrastructure

variable {o : RunOptions} {g : Infrastructure} {p q : Point}

/-! ### How moves change the graph -/

/-- **A move leaves the graph alone or puts a later stage in the place of a node that is not complete.** -/
theorem Inv.graph_move (hp : Inv o g p) (hm : Move o p q) :
    q.run.graph = p.run.graph ∨ ∃ n m, Replaces p.run.graph q.run.graph n m ∧ n.isComplete = false := by
  cases hm with
  | collect running => exact Or.inl rfl
  | take room taken =>
    rename_i r next outputs n rest now
    obtain ⟨hn, hnc, -, -⟩ := hp.queued n List.mem_cons_self
    rcases turn_eq_ok taken with ⟨-, rfl⟩ | ⟨-, m, hm, rfl⟩
    · exact Or.inr ⟨n, _, replaces_insertNode hn ⟨rfl, rfl, rfl, rfl, rfl, rfl⟩, hnc⟩
    · exact Or.inr ⟨n, m, replaces_insertNode hn (prepare_eq_ok hm).1, hnc⟩
  | refuse room refused => exact Or.inl rfl
  | close full => exact Or.inl rfl
  | report => exact Or.inl rfl
  | finish flying now outcome =>
    rcases hp.finish_cases flying now outcome with ⟨hgraph, -⟩ | ⟨n, m, hr, -, hnc, -⟩
    · exact Or.inl hgraph
    · exact Or.inr ⟨n, m, hr, hnc⟩

/-- **What is complete stays as it is.** -/
theorem Inv.complete_mem_of_reaches (hp : Inv o g p) (h : Reaches o p q) {m : InfraNode}
    (hm : m ∈ p.run.graph.nodes) (hc : m.isComplete = true) : m ∈ q.run.graph.nodes := by
  induction h with
  | refl => exact hm
  | tail hpx hmove ih =>
    rcases (hp.of_reaches hpx).graph_move hmove with hgraph | ⟨n, k, hr, hnc⟩
    · rw [hgraph]
      exact ih
    · exact hr.complete_mem hnc ih hc

/-! ### The invariant -/

/-- Whether a node is a later stage of one in the plan that was not complete and waits for nothing any more,
and has got its inputs from there by the outputs of complete nodes. -/
structure Called (g h : Infrastructure) (n m : InfraNode) : Prop where
  mem : n ∈ g.nodes
  incomplete : n.isComplete = false
  same : SameChange n m
  unblocked : isUnblocked h n.id = true
  resolved : Reference.resolve (Infrastructure.outputs h) n.inputs = .ok m.inputs

theorem Called.of_replaces {h h' : Infrastructure} {n m k l : InfraNode} (hc : Called g h k l)
    (hr : Replaces h h' n m) (hn : n.isComplete = false) : Called g h' k l where
  mem := hc.mem
  incomplete := hc.incomplete
  same := hc.same
  unblocked := hr.isUnblocked_of hn hc.unblocked
  resolved := Reference.resolve_of_within (hr.outputs_within hn) hc.resolved

/-- What holds at every moment of a run about the inputs of nodes: a stage sees outputs that are still there,
nodes that were not called are as in the plan, and nodes in flight have got their inputs from there. -/
structure Traced (g : Infrastructure) (p : Point) : Prop where
  seen : p.outputs.Within (Infrastructure.outputs p.run.graph)
  untouched : p.run.failure = none → ∀ m ∈ p.run.graph.nodes, m.isComplete = false →
    p.run.isInFlight m.id = false → m ∈ g.nodes
  flying : ∀ m ∈ p.run.graph.nodes, p.run.isInFlight m.id = true → m.action ≠ .delete →
    ∃ n, Called g p.run.graph n m

theorem Traced.start (g : Infrastructure) : Traced g (Point.start g) where
  seen := Table.nil_within _
  untouched := fun _ _ hm _ _ => hm
  flying := fun _ _ h => by cases h

/-- A node of the queue is as in the plan. -/
theorem Traced.mem_of_queued (ht : Traced g p) (hp : Inv o g p) {n : InfraNode} (hn : n ∈ p.queue) :
    n ∈ g.nodes := by
  obtain ⟨hmem, hnc, hidle, -⟩ := hp.queued n hn
  exact ht.untouched (hp.running (List.ne_nil_of_mem hn)) n hmem hnc hidle

theorem Traced.pass {r : Run} {outputs : Table Value} {n : InfraNode} {rest : List InfraNode}
    (ht : Traced g ⟨r, outputs, n :: rest⟩) (hp : Inv o g ⟨r, outputs, n :: rest⟩) (now : Instant) :
    Traced g ⟨passOver now n r, outputs, rest⟩ := by
  obtain ⟨hn, hnc, hidle, -⟩ := hp.queued n List.mem_cons_self
  have hr : Replaces r.graph (passOver now n r).graph n _ :=
    replaces_insertNode hn ⟨rfl, rfl, rfl, rfl, rfl, rfl⟩
  exact {
    seen := ht.seen.trans (hr.outputs_within hnc)
    untouched := by
      intro hf k hk hkc hkidle
      rcases (hr.nodes k).1 hk with rfl | ⟨hk, -⟩
      · cases hkc
      · exact ht.untouched hf k hk hkc hkidle
    flying := by
      intro k hk hkflies hka
      rcases (hr.nodes k).1 hk with rfl | ⟨hk, -⟩
      · -- a node of the queue is not in flight
        exact absurd hkflies (Bool.eq_false_iff.1 hidle)
      · obtain ⟨l, hl⟩ := ht.flying k hk hkflies hka
        exact ⟨l, hl.of_replaces hr hnc⟩ }

theorem Traced.take {r : Run} {outputs : Table Value} {n m : InfraNode} {rest : List InfraNode} {now : Instant}
    (ht : Traced g ⟨r, outputs, n :: rest⟩) (hp : Inv o g ⟨r, outputs, n :: rest⟩)
    (hm : prepare outputs now n = .ok m) : Traced g ⟨handOver o m r, outputs, rest⟩ := by
  obtain ⟨hn, hnc, -, hu⟩ := hp.queued n List.mem_cons_self
  obtain ⟨hsame, -, -, -, hinputs⟩ := prepare_eq_ok hm
  have hr : Replaces r.graph (handOver o m r).graph n m := replaces_insertNode hn hsame
  exact {
    seen := ht.seen.trans (hr.outputs_within hnc)
    untouched := by
      intro hf k hk hkc hidle
      have hnot : ¬ (r.isInFlight k.id = true ∨ m.id = k.id) := by
        rw [← isInFlight_handOver (o := o), hidle]
        exact Bool.false_ne_true
      rw [not_or, Bool.not_eq_true] at hnot
      rcases (hr.nodes k).1 hk with rfl | ⟨hk, -⟩
      · exact absurd rfl hnot.2
      · exact ht.untouched hf k hk hkc hnot.1
    flying := by
      intro k hk hkflies hka
      rcases (hr.nodes k).1 hk with rfl | ⟨hk, hne⟩
      · refine ⟨n, ht.mem_of_queued hp List.mem_cons_self, hnc, hsame, hr.isUnblocked_of hnc hu, ?_⟩
        have hres : Reference.resolve outputs n.inputs = .ok k.inputs :=
          (hinputs.resolve_left fun h => hka (hsame.action.trans h.1)).2
        exact Reference.resolve_of_within (ht.seen.trans (hr.outputs_within hnc)) hres
      · have hold : r.isInFlight k.id = true :=
          (isInFlight_handOver.1 hkflies).resolve_right fun e => hne (e.symm.trans hsame.id)
        obtain ⟨l, hl⟩ := ht.flying k hk hold hka
        exact ⟨l, hl.of_replaces hr hnc⟩ }

theorem Traced.finish {r : Run} {outputs : Table Value} (ht : Traced g ⟨r, outputs, []⟩)
    (hp : Inv o g ⟨r, outputs, []⟩) {c : Call} (hc : c ∈ r.inFlight) (now : Instant) (outcome : Outcome) :
    Traced g ⟨Run.finish now c outcome r, outputs, []⟩ := by
  rcases hp.finish_cases hc now outcome with ⟨hgraph, hflight, hf⟩ | ⟨n, m, hr, hid, hnc, -, hflight, hf⟩
  · exact {
      seen := by
        show outputs.Within (Infrastructure.outputs (Run.finish now c outcome r).graph)
        rw [hgraph]
        exact ht.seen
      untouched := fun hnone => by
        have hnone : (Run.finish now c outcome r).failure = none := hnone
        rw [hnone] at hf
        cases hf
      flying := by
        intro k _ hflies
        obtain ⟨d, hd, -⟩ := isInFlight_iff.1 hflies
        rw [hflight] at hd
        cases hd }
  · have hflies : ∀ id, (Run.finish now c outcome r).isInFlight id = true ↔
        r.isInFlight id = true ∧ id ≠ n.id := by
      intro id
      rw [hid]
      exact isInFlight_filter_iff hflight
    exact {
      seen := ht.seen.trans (hr.outputs_within hnc)
      untouched := by
        intro hnone k hk hkc hidle
        obtain ⟨hrunning, hmc⟩ := hf hnone
        rcases (hr.nodes k).1 hk with rfl | ⟨hk, hne⟩
        · rw [hmc] at hkc
          cases hkc
        · refine ht.untouched hrunning k hk hkc (Bool.eq_false_iff.2 fun hold => ?_)
          have hnew : (Run.finish now c outcome r).isInFlight k.id = true := (hflies _).2 ⟨hold, hne⟩
          exact absurd hnew (Bool.eq_false_iff.1 hidle)
      flying := by
        intro k hk hkflies hka
        obtain ⟨hold, hne⟩ := (hflies _).1 hkflies
        rcases (hr.nodes k).1 hk with rfl | ⟨hk, -⟩
        · exact absurd hr.same.id hne
        · obtain ⟨l, hl⟩ := ht.flying k hk hold hka
          exact ⟨l, hl.of_replaces hr hnc⟩ }

/-- **Every move keeps the invariant.** -/
theorem Traced.move (ht : Traced g p) (hp : Inv o g p) (hm : Move o p q) : Traced g q := by
  cases hm with
  | collect running => exact { ht with seen := Table.Within.refl _ }
  | take room taken =>
    rcases turn_eq_ok taken with ⟨-, rfl⟩ | ⟨-, m, hm, rfl⟩
    · exact ht.pass hp _
    · exact ht.take hp hm
  | refuse room refused => exact { ht with untouched := fun h => by cases h }
  | close full => exact { ht with }
  | report => exact { ht with }
  | finish flying now outcome => exact ht.finish hp flying now outcome

theorem Traced.of_reaches (ht : Traced g p) (hp : Inv o g p) (h : Reaches o p q) : Traced g q := by
  induction h with
  | refl => exact ht
  | tail hpx hm ih => exact ih.move (hp.of_reaches hpx) hm

theorem Traced.of_start (h : Reaches o (Point.start g) q) : Traced g q :=
  (Traced.start g).of_reaches (Inv.start o g) h

/-! ### The order of completion -/

/-- **What is complete after a move was so before, or it was called with the inputs that it has.** -/
theorem Traced.complete_or_called (hno : ∀ n ∈ g.nodes, n.action = .noOp → n.isComplete = true)
    (ht : Traced g p) (hp : Inv o g p) (hm : Move o p q) {m : InfraNode} (hmem : m ∈ q.run.graph.nodes)
    (hc : m.isComplete = true) (ha : m.action ≠ .delete) :
    m ∈ p.run.graph.nodes ∨ ∃ n, Called g p.run.graph n m := by
  cases hm with
  | collect running => exact Or.inl hmem
  | take room taken =>
    rename_i r next outputs n rest now
    obtain ⟨hn, hnc, -, -⟩ := hp.queued n List.mem_cons_self
    rcases turn_eq_ok taken with ⟨hnoOp, -⟩ | ⟨-, k, hk, rfl⟩
    · rw [hno n (ht.mem_of_queued hp List.mem_cons_self) hnoOp] at hnc
      cases hnc
    · have hr : Replaces r.graph (r.graph.insertNode k) n k := replaces_insertNode hn (prepare_eq_ok hk).1
      rcases (hr.nodes m).1 hmem with rfl | ⟨hmem, -⟩
      · rw [(prepare_eq_ok hk).2.1] at hc
        cases hc
      · exact Or.inl hmem
  | refuse room refused => exact Or.inl hmem
  | close full => exact Or.inl hmem
  | report => exact Or.inl hmem
  | finish flying now outcome =>
    rename_i r outputs c
    rcases hp.finish_cases flying now outcome with ⟨hgraph, -⟩ | ⟨n, k, hr, hid, -, hinputs, -⟩
    · have hmem : m ∈ (Run.finish now c outcome r).graph.nodes := hmem
      rw [hgraph] at hmem
      exact Or.inl hmem
    · rcases (hr.nodes m).1 hmem with rfl | ⟨hmem, -⟩
      · have hflies : r.isInFlight n.id = true := isInFlight_iff.2 ⟨c, flying, hid.symm⟩
        have hna : n.action ≠ .delete := by
          rw [← hr.same.action]
          exact ha
        obtain ⟨l, hl⟩ := ht.flying n hr.mem hflies hna
        refine Or.inr ⟨l, hl.mem, hl.incomplete, hl.same.trans hr.same, hl.unblocked, ?_⟩
        rw [hinputs]
        exact hl.resolved
      · exact Or.inl hmem

/-- **Induction in the order of completion.**  To show something of the nodes that are complete in the end, show
it of those that were so in the plan, and of those that were called when some nodes of which it holds, and
some deletions, were complete. -/
theorem completed_induction (hno : ∀ n ∈ g.nodes, n.action = .noOp → n.isComplete = true)
    (h : Reaches o (Point.start g) q) {P : InfraNode → Prop}
    (start : ∀ m ∈ g.nodes, m ∈ q.run.graph.nodes → m.isComplete = true → m.action ≠ .delete → P m)
    (called : ∀ (i : Infrastructure) (n m : InfraNode),
      (∀ k ∈ i.nodes, k.isComplete = true → k ∈ q.run.graph.nodes ∧ (k.action ≠ .delete → P k)) →
      i.edges = g.edges → Called g i n m → m ∈ q.run.graph.nodes → m.isComplete = true → m.action ≠ .delete → P m)
    {m : InfraNode} (hm : m ∈ q.run.graph.nodes) (hc : m.isComplete = true) (ha : m.action ≠ .delete) : P m := by
  have hinv : ∀ x, Reaches o (Point.start g) x → Inv o g x := fun x hx => Inv.of_start hx
  have key : ∀ x, Reaches o (Point.start g) x → Reaches o x q →
      ∀ m ∈ x.run.graph.nodes, m.isComplete = true → m.action ≠ .delete → P m := by
    intro x hx
    induction hx with
    | refl =>
      intro hq m hm hc ha
      exact start m hm ((Inv.start o g).complete_mem_of_reaches hq hm hc) hc ha
    | tail hx hmove ih =>
      rename_i x y
      intro hq m hm hc ha
      have hxq := hq.head hmove
      have ht : Traced g x := Traced.of_start hx
      rcases ht.complete_or_called hno (hinv x hx) hmove hm hc ha with hm | ⟨n, hcall⟩
      · exact ih hxq m hm hc ha
      · refine called x.run.graph n m (fun k hk hkc => ⟨?_, ih hxq k hk hkc⟩) (hinv x hx).edges hcall ?_ hc ha
        · exact (hinv x hx).complete_mem_of_reaches hxq hk hkc
        · exact (hinv y (hx.tail hmove)).complete_mem_of_reaches hq hm hc
  exact key q h ReflTransGen.refl m hm hc ha

end Groundwork.Run
