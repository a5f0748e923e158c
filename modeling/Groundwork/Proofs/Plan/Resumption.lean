import Groundwork.Proofs.Plan.Reproduction
import Groundwork.Proofs.Run.Rest
import Groundwork.Run.Rehearsal

/-!
# Resuming after a run

A run of a plan may stop anywhere.  To go on, one plans again for the same target from the graph that the run
left behind.  What is complete there should not be touched.  Its inputs were resolved by outputs of complete
nodes, and the second plan resolves them by outputs of unchanged ones; so it finds a complete node again if the
inputs of that node are reproduced by outputs of complete nodes that live on.

References in a plan are those of the target under new names, and a token is written anew with its new name.
A token that holds the end of a token breaks up when it is written anew, and what comes out of it may refer to
a node that is deleted.  A run that has the deletion done first resolves it, and no later plan can.

Main statements: a run is resumed exactly if all that is complete is reproduced; so it always is for a compiled
target without such tokens, and after a run that succeeded exactly if no node refers to a deleted one
(`replan_resumes_iff`).
-/

namespace Groundwork.Plan

open Relation
open Infrastructure
open Run (Inv Point Reaches Called)
open Compile (Closed)

variable {now now' : Instant} {before after : Infrastructure} {o : RunOptions} {q : Point} {n m k : InfraNode}

/-! ### What is kept -/

/-- Whether a plan leaves a node alone: it has a complete no-op in its place, with its outputs and its state. -/
def Kept (again : Infrastructure) (m : InfraNode) : Prop :=
  ∃ k ∈ again.nodes, k.id = m.id ∧ k.action = .noOp ∧ k.isComplete = true ∧ k.outputs = m.outputs ∧
    k.state = m.state

instance (again : Infrastructure) (m : InfraNode) : Decidable (Kept again m) :=
  inferInstanceAs (Decidable (∃ k ∈ again.nodes, _))

theorem kept_iff_foundAgain {g : Infrastructure} (hblue : ∀ n ∈ after.nodes, n.color = .blue) :
    Kept (plan now g after) m ↔ FoundAgain now g after m := by
  constructor
  · rintro ⟨k, hk, hid, hno, -, ho, hs⟩
    exact ⟨k, (mem_plan_noOp_iff hblue).1 ⟨hk, hno⟩, hid, ho, hs⟩
  · rintro ⟨k, hk, hid, ho, hs⟩
    obtain ⟨hmem, hno⟩ := (mem_plan_noOp_iff hblue).2 hk
    exact ⟨k, hmem, hid, hno, (isComplete_iff_of_mem_plan hmem).2 hno, ho, hs⟩

/-- **After a run the complete nodes are kept exactly if all of them are reproduced.** -/
theorem kept_iff (now' : Instant) (hclosed : Closed after)
    (h : Reaches o (Point.start (plan now before after)) q) :
    (∀ m ∈ q.run.graph.nodes, m.action ≠ .delete → m.isComplete = true →
        Kept (plan now' q.run.graph after) m) ↔
      ∀ m ∈ q.run.graph.nodes, m.action ≠ .delete → m.isComplete = true →
        ∀ n ∈ after.nodes, n.key = m.key → Reproduced q.run.graph after n m := by
  have hp := Inv.of_start h
  constructor
  · intro hkept m hm ha hc n hn hkey
    have hagain := (kept_iff_foundAgain hclosed.blue).1 (hkept m hm ha hc)
    exact hagain.reproduced hclosed hp hm hc hn (incarnation_of_key_eq hclosed.blue hp hm ha hn hkey)
  · intro hrep m hm ha hc
    refine (kept_iff_foundAgain hclosed.blue).2 (foundAgain_of_complete hclosed h ?_ hm hc ha)
    exact fun y hy hyc l hl hly => hrep y hy hly.action hyc l hl hly.key.symm

/-! ### What is tried again -/

/-- Whether a plan takes up again what a run left unfinished. -/
structure Retried (again : Infrastructure) (r : Run) : Prop where
  created : ∀ m ∈ r.graph.nodes, m.action = .create → m.isComplete = false →
    ∃ k ∈ again.nodes, k.key = m.key ∧ k.action = .create ∧ k.state = m.state
  updated : ∀ m ∈ r.graph.nodes, m.action = .update → m.isComplete = false →
    ∃ k ∈ again.nodes, k.id = m.id ∧ k.action = .update ∧ k.state = m.state

/-- **Unfinished creations and updates are planned again after any run.** -/
theorem retried_of_reaches (now' : Instant) (hclosed : Closed after)
    (h : Reaches o (Point.start (plan now before after)) q) :
    Retried (plan now' q.run.graph after) q.run := by
  have hp := Inv.of_start h
  -- an unfinished incarnation is no candidate, so the search leaves its successor alone
  have hplanned : ∀ m ∈ q.run.graph.nodes, m.action ≠ .delete → m.isComplete = false →
      ∃ n, Incarnation before n m ∧ previous? q.run.graph n.key = some m ∧
        planned q.run.graph after n ∈ (plan now' q.run.graph after).nodes := by
    intro m hm ha hc
    obtain ⟨n, hn, hnm⟩ := exists_incarnation_of_living hclosed.blue hp hm ha
    have hprev := previous?_eq_some hclosed.blue hp hm hnm
    exact ⟨n, hnm, hprev, planned_mem_plan now' hclosed.blue hn (candidate?_of_unfinished hprev hc)⟩
  constructor
  · intro m hm ha hc
    obtain ⟨n, hnm, hprev, hmem⟩ := hplanned m hm (by rw [ha]; exact fun e => by cases e) hc
    obtain ⟨hcreate, hstate⟩ := next_of_unfinished_create hprev ha hc
    exact ⟨_, hmem, (key_next q.run.graph n).trans hnm.key.symm, hcreate, hstate⟩
  · intro m hm ha hc
    obtain ⟨n, hnm, hprev, hmem⟩ := hplanned m hm (by rw [ha]; exact fun e => by cases e) hc
    have hkeep : mustRecreate m = false :=
      mustRecreate_eq_false_iff.2 ⟨hnm.action, fun e => by rw [ha] at e; cases e⟩
    exact ⟨_, hmem, next_of_kept hprev hnm.key hkeep⟩

/-! ### After a run that succeeded -/

/-- A plan without changes holds no-ops only. -/
theorem hasChanges_eq_false_iff {g : Infrastructure} :
    (Summary.ofGraph g).hasChanges = false ↔ ∀ n ∈ g.nodes, n.action = .noOp := by
  rw [Summary.hasChanges, decide_eq_false_iff_not, Nat.not_lt, Nat.le_zero, changes_ofGraph,
    List.countP_eq_zero]
  exact forall₂_congr fun n _ => by rw [decide_eq_true_eq, Ne, not_not]

/-- After a run that succeeded all names stay, and so do the inputs. -/
theorem inputs_planned_of_outcome (hclosed : Closed after) (hp : Inv o (plan now before after) q)
    {results : List NodeResult} (hok : q.run.outcome = .ok results) (hn : n ∈ after.nodes) :
    (planned before after n).inputs = (planned q.run.graph after n).inputs := by
  refine inputs_planned_congr hclosed hn fun k hk _ => ?_
  obtain ⟨m, hm, hkm⟩ := exists_incarnation hclosed.blue hp hk
  have hdone := hkm.isCompleteId hm ((Run.outcome_eq_ok_iff.1 hok).2.1 m hm)
  exact (id_next_of_isCompleteId hclosed.blue hp hk hdone).symm

/-- **If a run succeeded and its nodes are kept, the second plan changes nothing.**  Nothing is left to be
deleted either. -/
theorem hasChanges_of_kept (now' : Instant) (hclosed : Closed after)
    (h : Reaches o (Point.start (plan now before after)) q) {results : List NodeResult}
    (hok : q.run.outcome = .ok results)
    (hkept : ∀ m ∈ q.run.graph.nodes, m.action ≠ .delete → m.isComplete = true →
      Kept (plan now' q.run.graph after) m) :
    (Summary.ofGraph (plan now' q.run.graph after)).hasChanges = false := by
  have hp := Inv.of_start h
  rw [hasChanges_eq_false_iff]
  intro k hk
  rcases live_or_deletion_of_mem_plan hclosed.blue hk with ⟨n, hn, hnk⟩ | ⟨p, hpd, rfl⟩
  · obtain ⟨m, hm, hnm⟩ := exists_incarnation hclosed.blue hp hn
    have hc := (Run.outcome_eq_ok_iff.1 hok).2.1 m hm
    obtain ⟨l, hl, hlid, hno, -⟩ := hkept m hm hnm.action hc
    have hsame : k = l := by
      refine Graph.eq_of_id_eq hk hl ?_
      exact hnk.id.trans ((id_next_of_complete hclosed.blue hp hm hc hnm).trans hlid.symm)
    rw [hsame]
    exact hno
  · obtain ⟨hpm, hdoomed, -⟩ := mem_deleted.1 hpd
    have hc := (Run.outcome_eq_ok_iff.1 hok).2.1 _ hpm
    rcases isDoomed_iff.1 hdoomed with ⟨-, hnc⟩ | ⟨ha, hunwanted, -⟩
    · rw [hc] at hnc
      cases hnc
    · obtain ⟨n, hn, hnp⟩ := exists_incarnation_of_living hclosed.blue hp hpm ha
      exact absurd hnp.key.symm (hunwanted n hn)

/-! ### Resumption -/

/-- Whether a plan goes on exactly where a run stopped. -/
structure Resumes (again : Infrastructure) (r : Run) : Prop extends Retried again r where
  kept : ∀ m ∈ r.graph.nodes, m.action ≠ .delete → m.isComplete = true → Kept again m
  done : ∀ results, r.outcome = .ok results → (Summary.ofGraph again).hasChanges = false

/-- **A run is resumed exactly if all that is complete is reproduced.** -/
theorem resumes_iff (now' : Instant) (hclosed : Closed after)
    (h : Reaches o (Point.start (plan now before after)) q) :
    Resumes (plan now' q.run.graph after) q.run ↔
      ∀ m ∈ q.run.graph.nodes, m.action ≠ .delete → m.isComplete = true →
        ∀ n ∈ after.nodes, n.key = m.key → Reproduced q.run.graph after n m := by
  rw [← kept_iff now' hclosed h]
  constructor
  · exact fun hr => hr.kept
  · exact fun hk =>
      ⟨retried_of_reaches now' hclosed h, hk, fun results hok => hasChanges_of_kept now' hclosed h hok hk⟩

/-- Unbroken tokens refer to what lives on. -/
theorem not_refersToDeleted_of_unbroken (before : Infrastructure) (hclosed : Closed after)
    (hu : Unbroken after) (hn : n ∈ after.nodes) : ¬ RefersToDeleted before after n := by
  rintro ⟨p, hp, href⟩
  obtain ⟨k, hk, -, hid⟩ := (mem_referencedIds_planned before hclosed hn (hu n hn)).1 href
  exact (mem_deleted.1 hp).2.2 k hk hid

/-- What unbroken tokens of an unchanged node refer to is unchanged, so it is complete from the beginning and
keeps its name. -/
theorem inputs_planned_of_found (hclosed : Closed after) (hu : Unbroken after)
    (h : Reaches o (Point.start (plan now before after)) q)
    (hfound : Found now (skeleton before after) (candidates before after) m) (hn : n ∈ after.nodes)
    (hnm : Incarnation before n m) :
    (planned before after n).inputs = (planned q.run.graph after n).inputs := by
  refine inputs_planned_congr hclosed hn fun k hk href => ?_
  obtain ⟨outputs, hres, hknown, -⟩ := hfound.resolution hclosed.blue hn hnm.id
  have hnew : (next before k).id ∈ (planned before after n).referencedIds :=
    (mem_referencedIds_planned before hclosed hn (hu n hn)).2 ⟨k, hk, href, rfl⟩
  obtain ⟨v, hv⟩ := Reference.exists_output_of_referenced hres hnew
  obtain ⟨l, hl, hlid, -⟩ := hknown _ hnew v hv
  obtain ⟨hlmem, hlc, -⟩ := hl.mem_of_reaches hclosed.blue h
  have hdone : isCompleteId q.run.graph (next before k).id = true := isCompleteId_iff.2 ⟨l, hlmem, hlid, hlc⟩
  exact (id_next_of_isCompleteId hclosed.blue (Inv.of_start h) hk hdone).symm

/-- **Without tokens that break up a run is resumed wherever it stopped.** -/
theorem resumes_of_unbroken (now' : Instant) (hclosed : Closed after) (hu : Unbroken after)
    (h : Reaches o (Point.start (plan now before after)) q) :
    Resumes (plan now' q.run.graph after) q.run := by
  have hp := Inv.of_start h
  refine (resumes_iff now' hclosed h).2 fun m hm ha hc n hn hkey => ?_
  have hnm := incarnation_of_key_eq hclosed.blue hp hm ha hn hkey
  refine (reproduced_iff hclosed h hm hc hn hnm ?_).2 (not_refersToDeleted_of_unbroken before hclosed hu hn)
  have key : ∀ n ∈ after.nodes, Incarnation before n m →
      (planned before after n).inputs = (planned q.run.graph after n).inputs := by
    refine Run.completed_induction (fun x hx => (isComplete_iff_of_mem_plan hx).2) h
      (P := fun m => ∀ n ∈ after.nodes, Incarnation before n m →
        (planned before after n).inputs = (planned q.run.graph after n).inputs) ?_ ?_ hm hc ha
    · intro m hm _ hc _ n hn hnm
      exact inputs_planned_of_found hclosed hu h (found_of_complete hclosed.blue hm hc) hn hnm
    · intro i j m hi hedges hcall _ _ _ n hn hnm
      exact inputs_planned_of_called hclosed hp (fun k hk hkc => (hi k hk hkc).1) hedges hcall hn hnm
  exact key n hn hnm

/-- After a run that succeeded, it is resumed exactly if no node refers to a deleted one. -/
theorem resumes_iff_of_outcome (now' : Instant) (hclosed : Closed after)
    (h : Reaches o (Point.start (plan now before after)) q) (results : List NodeResult)
    (hok : q.run.outcome = .ok results) :
    Resumes (plan now' q.run.graph after) q.run ↔ ∀ n ∈ after.nodes, ¬ RefersToDeleted before after n := by
  have hp := Inv.of_start h
  rw [resumes_iff now' hclosed h]
  constructor
  · intro hrep n hn
    obtain ⟨m, hm, hnm⟩ := exists_incarnation hclosed.blue hp hn
    have hc := (Run.outcome_eq_ok_iff.1 hok).2.1 m hm
    exact (reproduced_iff hclosed h hm hc hn hnm (inputs_planned_of_outcome hclosed hp hok hn)).1
      (hrep m hm hnm.action hc n hn hnm.key.symm)
  · intro hrefs m hm ha hc n hn hkey
    have hnm := incarnation_of_key_eq hclosed.blue hp hm ha hn hkey
    exact (reproduced_iff hclosed h hm hc hn hnm (inputs_planned_of_outcome hclosed hp hok hn)).2 (hrefs n hn)

/-- **Planning again resumes a run exactly if all that is complete is reproduced**, whatever the scheduler and
the plugins did.  What is unfinished is tried again after any run.  If no token of the compiled target holds the
end of a token, all is reproduced; and after a run that succeeded all is, exactly if no node refers to a deleted
one. -/
theorem replan_resumes_iff {d : Definition} {app : AppGraph} {options : CompileOptions}
    (hcompile : d.compile app options = .ok after) {σ : Type} (o : RunOptions) (scheduler : Run.Scheduler σ)
    (s : σ) (now time now' : Instant) (before : Infrastructure) :
    let r := (Run.execute o scheduler time (plan now before after) s).1
    let again := plan now' r.graph after
    Retried again r ∧
      (Resumes again r ↔ ∀ m ∈ r.graph.nodes, m.action ≠ .delete → m.isComplete = true →
        ∀ n ∈ after.nodes, n.key = m.key → Reproduced r.graph after n m) ∧
      (Unbroken after → Resumes again r) ∧
      (∀ results, r.outcome = .ok results →
        (Resumes again r ↔ ∀ n ∈ after.nodes, ¬ RefersToDeleted before after n)) := by
  have hclosed := Compile.closed_of_compile hcompile
  obtain ⟨seen, h⟩ := Run.reaches_execute o scheduler time (plan now before after) s
  have hretried := retried_of_reaches now' hclosed h
  have hiff := resumes_iff now' hclosed h
  have hunbroken := fun hu => resumes_of_unbroken now' hclosed hu h
  have hdone := resumes_iff_of_outcome now' hclosed h
  exact ⟨hretried, hiff, hunbroken, hdone⟩

/-! ### Two modules -/

/-- Two modules, the second with a text from outside among its inputs. -/
def twoModules : Definition :=
  ⟨[("v", Metadata.ofType "string")],
    [("a", ⟨"img", .pulumi, .obj []⟩),
      ("u", ⟨"img", .pulumi, .obj [("t", .str "$\x7b\x7b variable.v \x7d\x7d")]⟩)], []⟩

/-- The two modules are compiled with this text. -/
def given (text : String) : CompileOptions := ⟨"dc", none, [("v", .str text)]⟩

/-- What the two modules are compiled into. -/
def target (text : String) : Infrastructure :=
  ((twoModules.compile Graph.empty (given text)).toOption).getD Graph.empty

theorem compile_eq_target {text : String}
    (h : (twoModules.compile Graph.empty (given text)).toOption.isSome = true) :
    twoModules.compile Graph.empty (given text) = .ok (target text) :=
  eq_ok_getD h Graph.empty

/-- A third module that was applied before and is not wanted any more. -/
def third : Infrastructure := Graph.ofParts [sample "old" .create .complete] []

/-- The first module takes its time; it and the deletion of the third give outputs. -/
def script : Script :=
  [("module/a@blue", { Part.usual with
      delay := 5, outputs := some (.obj [("x\"", .ofNat 1), ("z\"", .ofNat 2)]) }),
    ("module/old@blue", { Part.usual with outputs := some (.obj [("y", .ofNat 3)]) })]

/-- The run that replaces the third module by the two. -/
def replacement (text : String) : Run :=
  Rehearsal.execute ⟨2, none⟩ script (plan Instant.epoch third (target text))

/-- A reference of the second module to the first. -/
def plainText : String := "$\x7b\x7b module.a.z\" \x7d\x7d"

/-- With a plain reference the run is resumed. -/
theorem replan_resumes_plainText :
    twoModules.compile Graph.empty (given plainText) = .ok (target plainText) ∧
      Unbroken (target plainText) ∧
      Resumes (plan Instant.epoch (replacement plainText).graph (target plainText))
        (replacement plainText) := by
  have hcompile : twoModules.compile Graph.empty (given plainText) = .ok (target plainText) :=
    compile_eq_target (by decide +kernel)
  have hunbroken : Unbroken (target plainText) := by decide +kernel
  exact ⟨hcompile, hunbroken, (replan_resumes_iff hcompile ⟨2, none⟩ (Rehearsal.scheduler script)
    Rehearsal.start Instant.epoch Instant.epoch Instant.epoch third).2.2.1 hunbroken⟩

/-- Compiled, these are two references to the first module.  The quoted part of the second holds the end of a
token, and after that what looks like a reference to the third module: written anew the token breaks up there. -/
def brokenText : String :=
  "$\x7b module.a.x\"\x7d\x7d$\x7bmodule/a@blue.z\" \x7d $\x7b module/old@blue.y \x7d \"\x7d"

/-- **A run that succeeded need not be resumed.**  The second module came to refer to the third one while that
was deleted. -/
theorem not_resumes_brokenText :
    twoModules.compile Graph.empty (given brokenText) = .ok (target brokenText) ∧
      (∃ results, (replacement brokenText).outcome = .ok results) ∧
      ¬ Resumes (plan Instant.epoch (replacement brokenText).graph (target brokenText))
        (replacement brokenText) := by
  have hrun : (twoModules.compile Graph.empty (given brokenText)).toOption.isSome = true ∧
      (replacement brokenText).outcome.toOption.isSome = true ∧
      (Summary.ofGraph (plan Instant.epoch (replacement brokenText).graph
        (target brokenText))).hasChanges = true := by decide +kernel
  obtain ⟨hcompile, hok, hchanges⟩ := hrun
  obtain ⟨results, hresults⟩ : ∃ results, (replacement brokenText).outcome = .ok results := ⟨_, eq_ok_getD hok []⟩
  refine ⟨compile_eq_target hcompile, ⟨results, hresults⟩, fun h => ?_⟩
  rw [h.done results hresults] at hchanges
  cases hchanges

end Groundwork.Plan
