import Groundwork.Proofs.Plan.Contents
import Groundwork.Proofs.Run.Story
import Groundwork.Run.Rehearsal

/-!
# What a failed run leaves

A run that fails starts nothing more, but it waits for what is in flight.  So in the end the graph tells of each
node what its plugin did: a node that was called shows what its call returned, whether that was before or after
the failure, and a node that was not called is as it was, except that one that needs no change may have become
complete.

Main statements: the story of a run accounts for the graph, the calls and the failure (`Told.of_story`); a run
that fails for a plugin or for a reference leaves a graph that tells what was done, and it reports what it noticed
first (`execute_truthful`).
-/

namespace Groundwork.Run

open Infrastructure

variable {o : RunOptions} {g h : Infrastructure} {p q : Point} {story : List Notice} {σ : Type}

/-! ### What becomes of a node -/

/-- Whether a node shows how its call came to its end; a call that broke off leaves nothing to show.  When its
plugin failed a node has the outputs and the state that it had before. -/
def Shows : Outcome → InfraNode → InfraNode → Prop
  | .returned response, _, m =>
      m.status.phase = .complete ∧ m.status.message = none ∧ m.outputs = some response.outputs ∧
        m.state = response.state
  | .failed e, n, m =>
      m.status.phase = .error ∧ m.status.message = some e.message ∧ m.outputs = n.outputs ∧ m.state = n.state
  | .broken _, _, _ => False

/-- Whether the node of an id is a later stage of that in another graph, and the two are related. -/
def Became (g h : Infrastructure) (id : String) (R : InfraNode → InfraNode → Prop) : Prop :=
  ∃ n ∈ g.nodes, ∃ m ∈ h.nodes, n.id = id ∧ SameChange n m ∧ R n m

/-- Whether a node is one of a graph, or one that needs no change and has only become complete. -/
def Untouched (g : Infrastructure) (m : InfraNode) : Prop :=
  m ∈ g.nodes ∨ ∃ n ∈ g.nodes, n.action = .noOp ∧ n.isComplete = false ∧
    ∃ now, m = { n with status := .completeAt now }

/-- What became of a node stays so while another one is replaced. -/
theorem Became.of_replaces {h' : Infrastructure} {n m : InfraNode} (hr : Replaces h h' n m) {id : String}
    {R : InfraNode → InfraNode → Prop} (hb : Became g h id R) (hne : id ≠ n.id) : Became g h' id R := by
  obtain ⟨k, hk, l, hl, hid, hsame, hR⟩ := hb
  refine ⟨k, hk, l, hr.mem_of_ne hl fun e => hne ?_, hid, hsame, hR⟩
  rw [← hid, ← hsame.id, e]

/-- Calls that are about distinct nodes are one of them and the others. -/
theorem perm_cons_filter {c : Call} {l : List Call} (hc : c ∈ l) (hl : (l.map Call.id).Nodup) :
    (c :: l.filter (·.id ≠ c.id)).Perm l := by
  have hfresh : c ∉ l.filter (·.id ≠ c.id) := fun hmem => of_decide_eq_true (List.mem_filter.1 hmem).2 rfl
  have hnodup : l.Nodup := List.Nodup.of_map _ hl
  refine (List.perm_ext_iff_of_nodup (List.nodup_cons.2 ⟨hfresh, hnodup.filter _⟩) hnodup).2 fun d => ?_
  rw [List.mem_cons, List.mem_filter, decide_eq_true_iff]
  constructor
  · rintro (rfl | ⟨hd, -⟩)
    · exact hc
    · exact hd
  · intro hd
    by_cases hid : d.id = c.id
    · exact Or.inl (List.inj_on_of_nodup_map hl hd hc hid)
    · exact Or.inr ⟨hd, hid⟩

/-- Calls in flight are about other nodes than the first of the queue. -/
theorem Inv.id_ne_of_flying {r : Run} {outputs : Table Value} {n : InfraNode} {rest : List InfraNode}
    (hp : Inv o g ⟨r, outputs, n :: rest⟩) {c : Call} (hc : c ∈ r.inFlight) : c.id ≠ n.id := by
  obtain ⟨-, -, hidle, -⟩ := hp.queued n List.mem_cons_self
  intro e
  have hflies : r.isInFlight n.id = true := isInFlight_iff.2 ⟨c, hc, e⟩
  exact absurd hflies (Bool.eq_false_iff.1 hidle)

/-! ### The account -/

/-- What the story of a run tells of the moment to which it has come, if no call broke off. -/
structure Told (g : Infrastructure) (story : List Notice) (p : Point) : Prop where
  /-- What is reported is the first failure of the story. -/
  failure : p.run.failure = story.findSome? Notice.failure?
  /-- Each call has returned, or is in flight. -/
  calls : ((endings story).map Prod.fst ++ p.run.inFlight).Perm p.run.calls
  /-- What is in flight has the outputs and the state that it had. -/
  flying : ∀ c ∈ p.run.inFlight,
    Became g p.run.graph c.id fun n m => m.outputs = n.outputs ∧ m.state = n.state
  /-- A node whose call has returned shows what it returned. -/
  ended : ∀ x ∈ endings story, Became g p.run.graph x.1.id (Shows x.2)
  /-- A node with a reference that was not found was not called, and is as it was. -/
  refused : ∀ id cause, .refused id cause ∈ story →
    id ∉ p.run.calls.map Call.id ∧ ∃ n ∈ g.nodes, n.id = id ∧ n ∈ p.run.graph.nodes
  /-- A node that was not called is as it was. -/
  untouched : ∀ m ∈ p.run.graph.nodes, m.id ∉ p.run.calls.map Call.id → Untouched g m

namespace Told

variable {r : Run} {outputs : Table Value} {n : InfraNode} {rest : List InfraNode}

theorem start (g : Infrastructure) : Told g [] (Point.start g) where
  failure := rfl
  calls := List.Perm.refl _
  flying := fun _ hc => by cases hc
  ended := fun _ hx => by cases hx
  refused := fun _ _ hx => by cases hx
  untouched := fun _ hm _ => Or.inl hm

/-- What has returned was called. -/
theorem called (ht : Told g story p) {x : Call × Outcome} (hx : x ∈ endings story) :
    x.1.id ∈ p.run.calls.map Call.id := by
  have hmem : x.1 ∈ (endings story).map Prod.fst ++ p.run.inFlight :=
    List.mem_append_left _ (List.mem_map_of_mem hx)
  exact List.mem_map_of_mem (ht.calls.subset hmem)

/-- While the queue holds nodes no reference was refused. -/
theorem not_refused (ht : Told g story ⟨r, outputs, n :: rest⟩) (hp : Inv o g ⟨r, outputs, n :: rest⟩)
    {id : String} {cause : ExpressionError} : .refused id cause ∉ story := by
  intro hmem
  have hfailure := ht.failure.symm.trans (hp.running (List.cons_ne_nil _ _))
  have hnone := List.findSome?_eq_none_iff.1 hfailure _ hmem
  cases hnone

theorem pass (ht : Told g story ⟨r, outputs, n :: rest⟩) (hp : Inv o g ⟨r, outputs, n :: rest⟩)
    (htr : Traced g ⟨r, outputs, n :: rest⟩) (hno : n.action = .noOp) (now : Instant) :
    Told g story ⟨passOver now n r, outputs, rest⟩ := by
  obtain ⟨hn, hnc, -, -⟩ := hp.queued n List.mem_cons_self
  have hr : Replaces r.graph (passOver now n r).graph n _ :=
    replaces_insertNode hn ⟨rfl, rfl, rfl, rfl, rfl, rfl⟩
  exact {
    failure := ht.failure
    calls := by
      rw [calls_passOver]
      exact ht.calls
    flying := fun c hc => (ht.flying c hc).of_replaces hr (hp.id_ne_of_flying hc)
    ended := fun x hx => (ht.ended x hx).of_replaces hr fun e => hp.not_called (e ▸ ht.called hx)
    refused := fun _ _ hmem => absurd hmem (ht.not_refused hp)
    untouched := by
      rw [calls_passOver]
      intro m hm hcalls
      rcases (hr.nodes m).1 hm with rfl | ⟨hm, -⟩
      · exact Or.inr ⟨n, htr.mem_of_queued hp List.mem_cons_self, hno, hnc, now, rfl⟩
      · exact ht.untouched m hm hcalls }

theorem take (ht : Told g story ⟨r, outputs, n :: rest⟩) (hp : Inv o g ⟨r, outputs, n :: rest⟩)
    (htr : Traced g ⟨r, outputs, n :: rest⟩) {seen : Table Value} {now : Instant} {m : InfraNode}
    (hm : prepare seen now n = .ok m) : Told g story ⟨handOver o m r, outputs, rest⟩ := by
  obtain ⟨hn, -, -, -⟩ := hp.queued n List.mem_cons_self
  obtain ⟨hsame, -, houtputs, hstate, -⟩ := prepare_eq_ok hm
  have hr : Replaces r.graph (handOver o m r).graph n m := replaces_insertNode hn hsame
  have hid : (callFor o m).id = n.id := hsame.id
  exact {
    failure := ht.failure
    calls := by
      rw [calls_handOver]
      show (_ ++ (r.inFlight ++ [callFor o m])).Perm _
      rw [← List.append_assoc]
      exact ht.calls.append_right _
    flying := by
      intro c hc
      rcases List.mem_append.1 hc with hc | hc
      · exact (ht.flying c hc).of_replaces hr (hp.id_ne_of_flying hc)
      · rw [List.mem_singleton.1 hc, hid]
        exact ⟨n, htr.mem_of_queued hp List.mem_cons_self, m, hr.new_mem, rfl, hsame, houtputs, hstate⟩
    ended := fun x hx => (ht.ended x hx).of_replaces hr fun e => hp.not_called (e ▸ ht.called hx)
    refused := fun _ _ hmem => absurd hmem (ht.not_refused hp)
    untouched := by
      rw [calls_handOver, List.map_append, List.map_singleton, hid]
      intro k hk hcalls
      rw [List.mem_append, not_or] at hcalls
      rcases (hr.nodes k).1 hk with rfl | ⟨hk, -⟩
      · exact absurd (List.mem_singleton.2 hsame.id) hcalls.2
      · exact ht.untouched k hk hcalls.1 }

theorem refuse (ht : Told g story ⟨r, outputs, n :: rest⟩) (hp : Inv o g ⟨r, outputs, n :: rest⟩)
    (htr : Traced g ⟨r, outputs, n :: rest⟩) (cause : ExpressionError) :
    Told g (story ++ [.refused n.id cause])
      ⟨{ r with failure := some (.unresolvedReference n.id cause) }, outputs, []⟩ :=
  { ht with
    failure := by
      have hnone := ht.failure.symm.trans (hp.running (List.cons_ne_nil _ _))
      rw [List.findSome?_append, hnone]
      rfl
    calls := by
      rw [endings_concat_refused]
      exact ht.calls
    ended := by
      rw [endings_concat_refused]
      exact ht.ended
    refused := by
      intro id cause' hmem
      rcases List.mem_append.1 hmem with hmem | hmem
      · exact absurd hmem (ht.not_refused hp)
      · cases List.mem_singleton.1 hmem
        exact ⟨hp.not_called, n, htr.mem_of_queued hp List.mem_cons_self, rfl,
          (hp.queued n List.mem_cons_self).1⟩ }

/-- A call that returns and does not break off puts a node in the place of its own that shows what it returned. -/
theorem finish_cases (ht : Told g story ⟨r, outputs, []⟩) {c : Call} (hc : c ∈ r.inFlight) (now : Instant)
    {outcome : Outcome} (hkept : ∀ message, outcome ≠ .broken message) :
    (∃ n m, Replaces r.graph (Run.finish now c outcome r).graph n m ∧ n.id = c.id ∧
        ∃ k ∈ g.nodes, SameChange k n ∧ Shows outcome k m) ∧
      (Run.finish now c outcome r).inFlight = r.inFlight.filter (·.id ≠ c.id) ∧
      (Run.finish now c outcome r).failure = r.failure.or (Notice.ended c outcome).failure? := by
  obtain ⟨k, hk, n, hn, hkc, hsame, houtputs, hstate⟩ := ht.flying c hc
  have hid : n.id = c.id := hsame.id.trans hkc
  cases outcome with
  | returned response =>
    refine ⟨⟨n, _, replaces_returned hn hid now response, hid, k, hk, hsame, rfl, rfl, rfl, rfl⟩, rfl, ?_⟩
    exact (Option.or_none).symm
  | failed e =>
    exact ⟨⟨n, _, replaces_failed hn hid now e, hid, k, hk, hsame, rfl, rfl, houtputs, hstate⟩, rfl, rfl⟩
  | broken message => exact absurd rfl (hkept message)

theorem finish (ht : Told g story ⟨r, outputs, []⟩) (hp : Inv o g ⟨r, outputs, []⟩) {c : Call}
    (hc : c ∈ r.inFlight) (now : Instant) {outcome : Outcome} (hkept : ∀ message, outcome ≠ .broken message) :
    Told g (story ++ [.ended c outcome]) ⟨Run.finish now c outcome r, outputs, []⟩ := by
  obtain ⟨⟨n, m, hr, hid, k, hk, hsame, hshows⟩, hflight, hfailure⟩ := ht.finish_cases hc now hkept
  have hcall : c ∈ r.calls := ht.calls.subset (List.mem_append_right _ hc)
  -- what has returned and what is in flight are about different nodes
  have hapart : ∀ x ∈ endings story, x.1.id ≠ n.id := by
    intro x hx e
    have hnodup := (ht.calls.map Call.id).nodup_iff.2 hp.calls_nodup
    rw [List.map_append] at hnodup
    have hleft : x.1.id ∈ ((endings story).map Prod.fst).map Call.id :=
      List.mem_map_of_mem (List.mem_map_of_mem hx)
    exact (List.nodup_append.1 hnodup).2.2 _ hleft _ (List.mem_map_of_mem hc) (e.trans hid)
  exact {
    failure := by
      show (Run.finish now c outcome r).failure = _
      rw [hfailure, List.findSome?_append, ht.failure]
      congr 1
      simp
    calls := by
      show (_ ++ (Run.finish now c outcome r).inFlight).Perm (Run.finish now c outcome r).calls
      rw [calls_finish, hflight, endings_concat_ended, List.map_append, List.append_assoc]
      exact ((perm_cons_filter hc hp.distinct).append_left _).trans ht.calls
    flying := by
      intro d hd
      have hd : d ∈ (Run.finish now c outcome r).inFlight := hd
      rw [hflight] at hd
      obtain ⟨hd, hne⟩ := List.mem_filter.1 hd
      exact (ht.flying d hd).of_replaces hr fun e => of_decide_eq_true hne (e.trans hid)
    ended := by
      rw [endings_concat_ended]
      intro x hx
      rcases List.mem_append.1 hx with hx | hx
      · exact (ht.ended x hx).of_replaces hr (hapart x hx)
      · rw [List.mem_singleton.1 hx]
        exact ⟨k, hk, m, hr.new_mem, hsame.id.symm.trans hid, hsame.trans hr.same, hshows⟩
    refused := by
      intro id cause hmem
      have hmem : Notice.refused id cause ∈ story :=
        (List.mem_append.1 hmem).resolve_right fun hlast => by cases List.mem_singleton.1 hlast
      obtain ⟨hcalls, l, hl, hlid, hlg⟩ := ht.refused id cause hmem
      show id ∉ (Run.finish now c outcome r).calls.map Call.id ∧ _
      rw [calls_finish]
      refine ⟨hcalls, l, hl, hlid, hr.mem_of_ne hlg fun e => hcalls ?_⟩
      rw [← hlid, e, hid]
      exact List.mem_map_of_mem hcall
    untouched := by
      intro l hl hcalls
      have hcalls : l.id ∉ (Run.finish now c outcome r).calls.map Call.id := hcalls
      rw [calls_finish] at hcalls
      rcases (hr.nodes l).1 hl with rfl | ⟨hl, -⟩
      · refine absurd ?_ hcalls
        rw [hr.same.id, hid]
        exact List.mem_map_of_mem hcall
      · exact ht.untouched l hl hcalls }

/-- **The story of a run in which no call broke off accounts for it.** -/
theorem of_story (hs : Story o g story p) (hkept : Story.Unbroken story) : Told g story p := by
  induction hs with
  | start => exact Told.start g
  | quiet before move kept same ih =>
    have ht := ih hkept
    cases move with
    | collect running => exact { ht with }
    | take room taken =>
      rcases turn_eq_ok taken with ⟨hno, rfl⟩ | ⟨-, m, hm, rfl⟩
      · exact ht.pass before.inv before.traced hno _
      · exact ht.take before.inv before.traced hm
    | refuse room refused =>
      -- a move at which nothing fails is no refusal
      have hrunning := before.inv.running (List.cons_ne_nil _ _)
      rw [hrunning] at same
      cases same
    | close full => exact { ht with }
    | report => exact { ht with }
    | finish flying now outcome => exact absurd rfl (mem_inFlight_finish (kept flying)).2
  | refuse before room refused ih => exact (ih hkept.left).refuse before.inv before.traced _
  | finish before flying now outcome ih =>
    refine (ih hkept.left).finish before.inv flying now fun message e => ?_
    subst e
    exact hkept _ message (List.mem_append_right _ (List.mem_singleton.2 rfl))

end Told

/-! ### Failed runs -/

/-- Whether a run of a graph in which these calls returned leaves a graph that tells what was done. -/
structure Truthful (g : Infrastructure) (returned : List (Call × Outcome)) (r : Run) : Prop where
  edges : r.graph.edges = g.edges
  ids : r.graph.ids = g.ids
  /-- No node is called twice. -/
  once : (r.calls.map Call.id).Nodup
  /-- All calls have returned. -/
  calls : (returned.map Prod.fst).Perm r.calls
  /-- A node that was called shows what its call returned; one that was not called is as it was. -/
  fate : ∀ m ∈ r.graph.nodes,
    (∃ c outcome, (c, outcome) ∈ returned ∧ c.id = m.id ∧ ∃ n ∈ g.nodes, SameChange n m ∧ Shows outcome n m) ∨
      (m.id ∉ r.calls.map Call.id ∧ Untouched g m)

/-- When nothing is in flight any more, the account of a run tells what became of each node. -/
theorem Told.truthful (ht : Told g story p) (hp : Inv o g p) (hidle : p.run.inFlight = []) :
    Truthful g (endings story) p.run where
  edges := hp.edges
  ids := hp.ids
  once := hp.calls_nodup
  calls := by
    have hcalls := ht.calls
    rw [hidle, List.append_nil] at hcalls
    exact hcalls
  fate := by
    intro m hm
    by_cases hcalled : m.id ∈ p.run.calls.map Call.id
    · obtain ⟨c, hc, hid⟩ := List.mem_map.1 hcalled
      have hreturned := ht.calls.symm.subset hc
      rw [hidle, List.append_nil] at hreturned
      obtain ⟨x, hx, rfl⟩ := List.mem_map.1 hreturned
      obtain ⟨n, hn, k, hk, hnid, hsame, hshows⟩ := ht.ended x hx
      have hkm : k = m := Graph.eq_of_id_eq hk hm (hsame.id.trans (hnid.trans hid))
      exact Or.inl ⟨x.1, x.2, hx, hid, n, hn, hkm ▸ hsame, hkm ▸ hshows⟩
    · exact Or.inr ⟨hcalled, ht.untouched m hm hcalled⟩

/-- **A run that fails leaves a graph that tells what was done.**  If a plugin failed or a reference was not
found, then whatever the graph, the limit, the answers of the plugins and the order in which calls return: all
calls have returned; a node that was called is complete, with the outputs and the state that its call returned, or
is in error, with the message of its plugin and the outputs and the state that it had; a node that was not called
is as it was, except that one that needs no change may have become complete; and the failure that is reported is
the first that the run noticed.  A node with a reference that was not found was not called. -/
theorem execute_truthful (o : RunOptions) (scheduler : Scheduler σ) (now : Instant) (g : Infrastructure) (s : σ)
    {e : RunError} (hfailed : (execute o scheduler now g s).1.outcome = .error e)
    (hkind : (∃ id message, e = .nodeFailed id message) ∨ ∃ id cause, e = .unresolvedReference id cause) :
    Truthful g (returns o scheduler now g s) (execute o scheduler now g s).1 ∧
      (∃ seen story, Story o g story ⟨(execute o scheduler now g s).1, seen, []⟩ ∧
        endings story = returns o scheduler now g s ∧ story.findSome? Notice.failure? = some e) ∧
      ∀ id cause, e = .unresolvedReference id cause →
        id ∉ (execute o scheduler now g s).1.calls.map Call.id ∧
          ∃ n ∈ g.nodes, n.id = id ∧ n ∈ (execute o scheduler now g s).1.graph.nodes := by
  have hfailure : (execute o scheduler now g s).1.failure = some e := by
    refine failure_of_outcome hfailed fun pending => ?_
    rcases hkind with ⟨id, message, rfl⟩ | ⟨id, cause, rfl⟩
    · exact nofun
    · exact nofun
  obtain ⟨seen, story, hstory, hreturns⟩ := story_execute o scheduler now g s
  have hkept : Story.Unbroken story := by
    refine hstory.unbroken fun message he => ?_
    have he := Option.some.inj (hfailure.symm.trans he)
    rcases hkind with ⟨id, message, rfl⟩ | ⟨id, cause, rfl⟩
    · cases he
    · cases he
  have ht := Told.of_story hstory hkept
  have hfirst : story.findSome? Notice.failure? = some e := ht.failure.symm.trans hfailure
  refine ⟨?_, ⟨seen, story, hstory, hreturns, hfirst⟩, ?_⟩
  · rw [← hreturns]
    exact ht.truthful hstory.inv (atRest_execute o scheduler now g s).1
  · rintro id cause rfl
    obtain ⟨notice, hmem, htells⟩ := List.exists_of_findSome?_eq_some hfirst
    have hnotice : notice = .refused id cause := by
      cases notice with
      | ended c outcome =>
        cases outcome with
        | returned response => cases htells
        | failed f => cases htells
        | broken message => cases htells
      | refused id' cause' =>
        cases htells
        rfl
    exact ht.refused id cause (hnotice ▸ hmem)

/-- A service with a cache and a database, and a log that needs no change. -/
def outage : Infrastructure :=
  Graph.ofParts
    [Plan.sample "app" .create .pending, Plan.sample "cache" .update .pending, Plan.sample "db" .create .pending,
      Plan.sample "log" .noOp .pending]
    [⟨"module/app@blue", "module/cache@blue"⟩, ⟨"module/app@blue", "module/db@blue"⟩]

/-- The cache fails at once, while the database is in flight. -/
def outageScript : Script :=
  [("module/cache@blue", { Part.usual with error := some "quota exceeded" }),
    ("module/db@blue", { Part.usual with delay := 1 })]

/-- The database is waited for, the app is never called, and the cache is reported. -/
theorem execute_truthful_outage :
    (Rehearsal.execute ⟨2, none⟩ outageScript outage).outcome =
        .error (.nodeFailed "module/cache@blue" "quota exceeded") ∧
      ((Rehearsal.execute ⟨2, none⟩ outageScript outage).calls.map Call.id) =
        ["module/cache@blue", "module/db@blue"] ∧
      Truthful outage (returns ⟨2, none⟩ (Rehearsal.scheduler outageScript) Instant.epoch outage Rehearsal.start)
        (Rehearsal.execute ⟨2, none⟩ outageScript outage) := by
  have hfailed : (Rehearsal.execute ⟨2, none⟩ outageScript outage).outcome =
      .error (.nodeFailed "module/cache@blue" "quota exceeded") := by decide +kernel
  refine ⟨hfailed, by decide +kernel, ?_⟩
  exact (execute_truthful ⟨2, none⟩ (Rehearsal.scheduler outageScript) Instant.epoch outage Rehearsal.start hfailed
    (Or.inl ⟨_, _, rfl⟩)).1

end Groundwork.Run
