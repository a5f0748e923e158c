import Groundwork.Proofs.Run.Rest

/-!
# Plugins that answer by a rule

If what a plugin answers depends on the request alone, what becomes of a node depends on its place in the plan
and on the outputs put in the place of its references alone.  `Becomes` says what that is; that a run never
turns back makes it hold of all complete nodes at every moment.

A node whose turn it is sees of each node that it waits for what there is to be seen: that node was complete
already when the stage began.

Main statements: the queue sees what it waits for (`Sees.of_start`), and complete nodes, calls and calls in
flight are what the plan, the outputs and the rule make of them (`Answered.of_start`).
-/

namespace Groundwork.Run

open Relation
open Infrastructure

variable {o : RunOptions} {g : Infrastructure} {p q : Point}

/-! ### What the queue sees -/

/-- Whether each node of the queue sees the outputs of those that it waits for as they are in the graph. -/
def Sees (p : Point) : Prop :=
  ∀ n ∈ p.queue, ∀ e ∈ p.run.graph.edges, e.source = n.id →
    p.outputs.lookup e.target = (Infrastructure.outputs p.run.graph).lookup e.target

theorem Sees.take {r next : Run} {outputs : Table Value} {n m : InfraNode} {rest : List InfraNode}
    (hs : Sees ⟨r, outputs, n :: rest⟩) (hp : Inv o g ⟨r, outputs, n :: rest⟩)
    (hr : Replaces r.graph next.graph n m) : Sees ⟨next, outputs, rest⟩ := by
  obtain ⟨-, hnc, -, -⟩ := hp.queued n List.mem_cons_self
  intro k hk e he hsource
  have he : e ∈ r.graph.edges := hr.edges ▸ he
  obtain ⟨-, -, -, hu⟩ := hp.queued k (List.mem_cons_of_mem n hk)
  show outputs.lookup e.target = (Infrastructure.outputs next.graph).lookup e.target
  rw [hr.lookup_outputs_of_isCompleteId hnc (isUnblocked_iff.1 hu e he hsource)]
  exact hs k (List.mem_cons_of_mem n hk) e he hsource

theorem Sees.move (hs : Sees p) (hp : Inv o g p) (hm : Move o p q) : Sees q := by
  cases hm with
  | collect running => exact fun _ _ _ _ _ => rfl
  | take room taken =>
    obtain ⟨hn, -, -, -⟩ := hp.queued _ List.mem_cons_self
    rcases turn_eq_ok taken with ⟨-, rfl⟩ | ⟨-, m, hm, rfl⟩
    · exact hs.take hp (replaces_insertNode hn ⟨rfl, rfl, rfl, rfl, rfl, rfl⟩)
    · exact hs.take hp (replaces_insertNode hn (prepare_eq_ok hm).1)
  | refuse room refused => exact fun _ h => by cases h
  | close full => exact fun _ h => by cases h
  | report => exact fun _ h => by cases h
  | finish flying now outcome => exact fun _ h => by cases h

/-- **The queue sees what it waits for.** -/
theorem Sees.of_start (h : Reaches o (Point.start g) q) : Sees q := by
  induction h with
  | refl => exact fun _ h => by cases h
  | tail hpx hm ih => exact ih.move (Inv.of_start hpx) hm

/-- Outputs are never taken back. -/
theorem Inv.outputs_within (hp : Inv o g p) (hm : Move o p q) :
    (Infrastructure.outputs p.run.graph).Within (Infrastructure.outputs q.run.graph) := by
  rcases hp.graph_move hm with hgraph | ⟨n, m, hr, hnc⟩
  · rw [hgraph]
    exact Table.Within.refl _
  · exact hr.outputs_within hnc

/-! ### Preparing a node -/

theorem prepare_of_within {outputs outputs' : Table Value} {now : Instant} {n m : InfraNode}
    (hw : outputs.Within outputs') (h : prepare outputs now n = .ok m) : prepare outputs' now n = .ok m := by
  rcases prepare_cases h with ⟨hdelete, rfl⟩ | ⟨hdelete, inputs, hinputs, rfl⟩
  · exact prepare_of_delete outputs' now hdelete
  · exact prepare_of_resolve hdelete (Reference.resolve_of_within hw hinputs) now

theorem prepare_eq {outputs : Table Value} {now : Instant} {n m : InfraNode}
    (h : prepare outputs now n = .ok m) : m = { n with inputs := m.inputs, status := m.status } := by
  rcases prepare_cases h with ⟨-, rfl⟩ | ⟨-, inputs, -, rfl⟩
  · rfl
  · rfl

/-- A node is prepared in one way, up to its status. -/
theorem prepare_congr {outputs outputs' : Table Value} {now now' : Instant} {n m m' : InfraNode}
    (hw : outputs.Within outputs') (h : prepare outputs now n = .ok m) (h' : prepare outputs' now' n = .ok m') :
    m' = { m with status := m'.status } := by
  have hinputs : m'.inputs = m.inputs := by
    rcases (prepare_eq_ok h).2.2.2.2 with ⟨hdelete, hi⟩ | ⟨hdelete, hres⟩
    · rcases (prepare_eq_ok h').2.2.2.2 with ⟨-, hi'⟩ | ⟨hnot, -⟩
      · rw [hi, hi']
      · exact absurd hdelete hnot
    · rcases (prepare_eq_ok h').2.2.2.2 with ⟨hdelete', -⟩ | ⟨-, hres'⟩
      · exact absurd hdelete' hdelete
      · rw [Reference.resolve_of_within hw hres] at hres'
        exact (Except.ok.inj hres').symm
  calc m' = { n with inputs := m'.inputs, status := m'.status } := prepare_eq h'
    _ = { ({ n with inputs := m.inputs, status := m.status } : InfraNode) with status := m'.status } := by
      rw [hinputs]
    _ = { m with status := m'.status } := by rw [← prepare_eq h]

/-- Calls for one node under two limits are the same if images are below the same directory. -/
theorem callFor_congr {o o' : RunOptions} (h : o.directory = o'.directory) (n : InfraNode) :
    callFor o n = callFor o' n := by
  unfold callFor RunOptions.image
  rw [h]

/-! ### The rule -/

/-- Whether a call comes to the end that a rule gives for its plugin and its request. -/
def Follows (respond : PluginKind → ApplyRequest → Outcome) (c : Call) (outcome : Outcome) : Prop :=
  outcome = respond c.plugin c.request

/-- Whether a node of a plan that has to be changed is called in this way, with these outputs in the place of its
references. -/
structure Sent (o : RunOptions) (outputs : Table Value) (n m : InfraNode) (c : Call) : Prop where
  incomplete : n.isComplete = false
  changes : n.action ≠ .noOp
  prepared : ∃ start, prepare outputs start n = .ok m
  call : c = callFor o m

/-- What a node of a plan becomes if its plugin succeeds, with these outputs in the place of its references. -/
inductive Becomes (o : RunOptions) (respond : PluginKind → ApplyRequest → Outcome) (outputs : Table Value)
    (n : InfraNode) : InfraNode → Prop
  | kept (complete : n.isComplete = true) : Becomes o respond outputs n n
  | passed (incomplete : n.isComplete = false) (unchanged : n.action = .noOp) (now : Instant) :
      Becomes o respond outputs n { n with status := .completeAt now }
  | answered {m : InfraNode} {c : Call} {response : ApplyResponse} (sent : Sent o outputs n m c)
      (answer : respond c.plugin c.request = .returned response) (now : Instant) :
      Becomes o respond outputs n (answered response now m)

variable {respond : PluginKind → ApplyRequest → Outcome}

theorem Sent.mono {outputs outputs' : Table Value} {n m : InfraNode} {c : Call} (hw : outputs.Within outputs')
    (h : Sent o outputs n m c) : Sent o outputs' n m c := by
  obtain ⟨start, hprepared⟩ := h.prepared
  exact { h with prepared := ⟨start, prepare_of_within hw hprepared⟩ }

theorem Becomes.mono {outputs outputs' : Table Value} {n m : InfraNode} (hw : outputs.Within outputs')
    (h : Becomes o respond outputs n m) : Becomes o respond outputs' n m := by
  cases h with
  | kept complete => exact .kept complete
  | passed incomplete unchanged now => exact .passed incomplete unchanged now
  | answered sent answer now => exact .answered (sent.mono hw) answer now

theorem Sent.id {outputs : Table Value} {n m : InfraNode} {c : Call} (h : Sent o outputs n m c) :
    c.id = n.id ∧ m.id = n.id := by
  obtain ⟨start, hprepared⟩ := h.prepared
  have hid : m.id = n.id := (prepare_eq_ok hprepared).1.id
  refine ⟨?_, hid⟩
  rw [h.call]
  exact hid

theorem Becomes.id {outputs : Table Value} {n m : InfraNode} (h : Becomes o respond outputs n m) :
    m.id = n.id := by
  cases h with
  | kept complete => rfl
  | passed incomplete unchanged now => rfl
  | answered sent answer now => exact sent.id.2

/-- **Two calls for one node are the same**, whenever they are made. -/
theorem Sent.congr {o o' : RunOptions} (hdirectory : o.directory = o'.directory)
    {outputs outputs' : Table Value} (hw : outputs.Within outputs') {n m m' : InfraNode} {c c' : Call}
    (h : Sent o outputs n m c) (h' : Sent o' outputs' n m' c') :
    c' = c ∧ m' = { m with status := m'.status } := by
  obtain ⟨start, hprepared⟩ := h.prepared
  obtain ⟨start', hprepared'⟩ := h'.prepared
  have hsame : m' = { m with status := m'.status } := prepare_congr hw hprepared hprepared'
  refine ⟨?_, hsame⟩
  rw [h.call, h'.call, hsame, callFor_congr hdirectory]
  rfl

/-! ### The invariant -/

/-- What holds at every moment of a run whose plugins answer by a rule. -/
structure Answered (respond : PluginKind → ApplyRequest → Outcome) (o : RunOptions) (g : Infrastructure)
    (p : Point) : Prop where
  complete : ∀ m ∈ p.run.graph.nodes, m.isComplete = true →
    ∃ n ∈ g.nodes, Becomes o respond (Infrastructure.outputs p.run.graph) n m
  called : ∀ c ∈ p.run.calls, ∃ n ∈ g.nodes, ∃ m, Sent o (Infrastructure.outputs p.run.graph) n m c
  flying : ∀ c ∈ p.run.inFlight, ∃ n ∈ g.nodes, ∃ m ∈ p.run.graph.nodes,
    Sent o (Infrastructure.outputs p.run.graph) n m c ∧ isUnblocked p.run.graph n.id = true

theorem Answered.start (respond : PluginKind → ApplyRequest → Outcome) (o : RunOptions) (g : Infrastructure) :
    Answered respond o g (Point.start g) where
  complete := fun m hm hc => ⟨m, hm, .kept hc⟩
  called := fun _ h => by cases h
  flying := fun _ h => by cases h

namespace Answered

variable {r : Run} {outputs : Table Value} {n : InfraNode} {rest : List InfraNode}

theorem pass (ha : Answered respond o g ⟨r, outputs, n :: rest⟩) (hp : Inv o g ⟨r, outputs, n :: rest⟩)
    (ht : Traced g ⟨r, outputs, n :: rest⟩) (hno : n.action = .noOp) (now : Instant) :
    Answered respond o g ⟨passOver now n r, outputs, rest⟩ := by
  obtain ⟨hn, hnc, hidle, -⟩ := hp.queued n List.mem_cons_self
  have hr : Replaces r.graph (passOver now n r).graph n _ :=
    replaces_insertNode hn ⟨rfl, rfl, rfl, rfl, rfl, rfl⟩
  have hw := hr.outputs_within hnc
  exact {
    complete := by
      intro m hm hmc
      rcases (hr.nodes m).1 hm with rfl | ⟨hm, -⟩
      · exact ⟨n, ht.mem_of_queued hp List.mem_cons_self, .passed hnc hno now⟩
      · obtain ⟨k, hk, hbecomes⟩ := ha.complete m hm hmc
        exact ⟨k, hk, hbecomes.mono hw⟩
    called := by
      rw [calls_passOver]
      intro c hc
      obtain ⟨k, hk, m, hsent⟩ := ha.called c hc
      exact ⟨k, hk, m, hsent.mono hw⟩
    flying := by
      intro c hc
      obtain ⟨k, hk, m, hm, hsent, hu⟩ := ha.flying c hc
      refine ⟨k, hk, m, hr.mem_of_ne hm fun e => ?_, hsent.mono hw, hr.isUnblocked_of hnc hu⟩
      have hflies : r.isInFlight n.id = true :=
        isInFlight_iff.2 ⟨c, hc, hsent.id.1.trans (hsent.id.2.symm.trans e)⟩
      exact absurd hflies (Bool.eq_false_iff.1 hidle) }

theorem take (ha : Answered respond o g ⟨r, outputs, n :: rest⟩) (hp : Inv o g ⟨r, outputs, n :: rest⟩)
    (ht : Traced g ⟨r, outputs, n :: rest⟩) (hno : n.action ≠ .noOp) {now : Instant} {m : InfraNode}
    (hm : prepare outputs now n = .ok m) : Answered respond o g ⟨handOver o m r, outputs, rest⟩ := by
  obtain ⟨hn, hnc, hidle, hu⟩ := hp.queued n List.mem_cons_self
  have hr : Replaces r.graph (handOver o m r).graph n m := replaces_insertNode hn (prepare_eq_ok hm).1
  have hw := hr.outputs_within hnc
  have hng := ht.mem_of_queued hp List.mem_cons_self
  have hsent : Sent o (Infrastructure.outputs (handOver o m r).graph) n m (callFor o m) :=
    ⟨hnc, hno, ⟨now, prepare_of_within (ht.seen.trans hw) hm⟩, rfl⟩
  exact {
    complete := by
      intro k hk hkc
      rcases (hr.nodes k).1 hk with rfl | ⟨hk, -⟩
      · rw [(prepare_eq_ok hm).2.1] at hkc
        cases hkc
      · obtain ⟨l, hl, hbecomes⟩ := ha.complete k hk hkc
        exact ⟨l, hl, hbecomes.mono hw⟩
    called := by
      rw [calls_handOver]
      intro c hc
      rcases List.mem_append.1 hc with hc | hc
      · obtain ⟨k, hk, l, hl⟩ := ha.called c hc
        exact ⟨k, hk, l, hl.mono hw⟩
      · rw [List.mem_singleton.1 hc]
        exact ⟨n, hng, m, hsent⟩
    flying := by
      intro c hc
      rcases List.mem_append.1 hc with hc | hc
      · obtain ⟨k, hk, l, hl, hsl, hul⟩ := ha.flying c hc
        refine ⟨k, hk, l, hr.mem_of_ne hl fun e => ?_, hsl.mono hw, hr.isUnblocked_of hnc hul⟩
        have hflies : r.isInFlight n.id = true :=
          isInFlight_iff.2 ⟨c, hc, hsl.id.1.trans (hsl.id.2.symm.trans e)⟩
        exact absurd hflies (Bool.eq_false_iff.1 hidle)
      · rw [List.mem_singleton.1 hc]
        exact ⟨n, hng, m, hr.new_mem, hsent, hr.isUnblocked_of hnc hu⟩ }

/-- A call that returns puts a later stage in the place of its node, which is what the rule makes of it if it is
complete; the others do not notice. -/
theorem finish_of_replaces (ha : Answered respond o g ⟨r, outputs, []⟩) {next : Run} {c : Call} {k m : InfraNode}
    (hr : Replaces r.graph next.graph k m) (hid : k.id = c.id) (hkc : k.isComplete = false)
    (hcalls : next.calls = r.calls) (hflight : ∀ d ∈ next.inFlight, d ∈ r.inFlight ∧ d.id ≠ c.id)
    (hnew : m.isComplete = true → ∃ n ∈ g.nodes, Becomes o respond (Infrastructure.outputs r.graph) n m) :
    Answered respond o g ⟨next, outputs, []⟩ := by
  have hw := hr.outputs_within hkc
  exact {
    complete := by
      intro l hl hlc
      have hbefore : ∃ n ∈ g.nodes, Becomes o respond (Infrastructure.outputs r.graph) n l := by
        rcases (hr.nodes l).1 hl with rfl | ⟨hl, -⟩
        · exact hnew hlc
        · exact ha.complete l hl hlc
      obtain ⟨n, hn, hbecomes⟩ := hbefore
      exact ⟨n, hn, hbecomes.mono hw⟩
    called := by
      intro d hd
      obtain ⟨n, hn, l, hsent⟩ := ha.called d (hcalls ▸ hd)
      exact ⟨n, hn, l, hsent.mono hw⟩
    flying := by
      intro d hd
      obtain ⟨hd, hne⟩ := hflight d hd
      obtain ⟨n, hn, l, hl, hsent, hu⟩ := ha.flying d hd
      refine ⟨n, hn, l, hr.mem_of_ne hl fun e => hne ?_, hsent.mono hw, hr.isUnblocked_of hkc hu⟩
      rw [hsent.id.1, ← hsent.id.2, e, hid] }

theorem finish (ha : Answered respond o g ⟨r, outputs, []⟩) {c : Call} (hc : c ∈ r.inFlight) (now : Instant)
    {outcome : Outcome} (hrule : Follows respond c outcome) :
    Answered respond o g ⟨Run.finish now c outcome r, outputs, []⟩ := by
  obtain ⟨n, hn, m, hm, hsent, -⟩ := ha.flying c hc
  have hid : m.id = c.id := hsent.id.2.trans hsent.id.1.symm
  have hmc : m.isComplete = false := by
    obtain ⟨start, hprepared⟩ := hsent.prepared
    exact (prepare_eq_ok hprepared).2.1
  have hcalls := calls_finish now c outcome r
  have hflight : ∀ d ∈ (Run.finish now c outcome r).inFlight, d ∈ r.inFlight ∧ d.id ≠ c.id :=
    fun d hd => mem_inFlight_finish hd
  cases outcome with
  | returned response =>
    refine ha.finish_of_replaces (replaces_returned hm hid now response) hid hmc hcalls hflight fun _ => ?_
    exact ⟨n, hn, .answered hsent hrule.symm now⟩
  | failed e =>
    exact ha.finish_of_replaces (replaces_failed hm hid now e) hid hmc hcalls hflight fun h => by cases h
  | broken message =>
    exact {
      complete := ha.complete
      called := fun d hd => ha.called d (hcalls ▸ hd)
      flying := fun _ h => by cases h }

/-- **Every move by the rule keeps the invariant.** -/
theorem move (ha : Answered respond o g p) (hp : Inv o g p) (ht : Traced g p)
    (hm : MoveBy (Follows respond) o p q) : Answered respond o g q := by
  cases hm with
  | stage hm kept =>
    cases hm with
    | collect running => exact { ha with }
    | take room taken =>
      rcases turn_eq_ok taken with ⟨hno, rfl⟩ | ⟨hno, m, hm, rfl⟩
      · exact ha.pass hp ht hno _
      · exact ha.take hp ht hno hm
    | refuse room refused => exact { ha with }
    | close full => exact { ha with }
    | report => exact { ha with }
    | finish flying now outcome =>
      -- a call that returns is no longer in flight
      exact absurd rfl (mem_inFlight_finish (kept flying)).2
  | finish flying now allowed => exact ha.finish flying now allowed

theorem of_start (h : ReachesBy (Follows respond) o (Point.start g) q) : Answered respond o g q := by
  induction h with
  | refl => exact Answered.start respond o g
  | tail hpx hm ih =>
    have hreach := ReachesBy.reaches hpx
    exact ih.move (Inv.of_start hreach) (Traced.of_start hreach) hm

end Answered

end Groundwork.Run
