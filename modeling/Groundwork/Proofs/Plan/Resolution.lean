import Groundwork.Proofs.Plan.Resumption
import Groundwork.Proofs.Run.Answers

/-!
# References that are found

A compiled target refers to its own nodes only, and each node waits for all that it refers to.  A plan gives new
names to references and to edges alike.  So when a node has its turn in a run of the plan, everything that it
refers to is complete, and it has outputs, from its plugin or from before; all that can be missing there is a
key.

This is so of nodes whose tokens stay tokens when they are written anew.  A token that holds the end of a token
breaks up instead, and what comes out of it need not be a reference at all.

Main statements: what the tokens of a queued node refer to has outputs (`exists_output_of_queued`), and a run of
a plan for a compiled target fails for a reference only if a plugin did not return the key, or if a token of the
node broke up (`unreturned_or_broken`).
-/

namespace Groundwork.Plan

open Relation
open Infrastructure
open Run (Inv Ledger Point Reaches Sees Traced)
open Compile (Closed)

variable {now : Instant} {before after : Infrastructure} {o : RunOptions} {p q : Point} {n k : InfraNode}

/-! ### Outputs of complete nodes -/

/-- Whether everything that is complete and no deletion has outputs. -/
def Furnished (before : Infrastructure) : Prop :=
  ∀ p ∈ before.nodes, p.isComplete = true → p.action ≠ .delete → p.outputs.isSome = true

instance (before : Infrastructure) : Decidable (Furnished before) :=
  inferInstanceAs (Decidable (∀ p ∈ before.nodes, _))

/-- The complete nodes of a plan have the outputs that they had before. -/
theorem isSome_outputs_of_mem_plan (hblue : ∀ n ∈ after.nodes, n.color = .blue) (hf : Furnished before)
    (hk : k ∈ (plan now before after).nodes) (hc : k.isComplete = true) : k.outputs.isSome = true := by
  obtain ⟨p, hp, hpc, hpa, -, houtputs, -⟩ := (found_of_complete hblue hk hc).exists_complete hblue
  rw [← houtputs]
  exact hf p hp hpc hpa

/-- **At every moment of a run complete nodes have outputs.** -/
theorem isSome_outputs_of_reaches (hblue : ∀ n ∈ after.nodes, n.color = .blue) (hf : Furnished before)
    (h : Reaches o (Point.start (plan now before after)) p) (hk : k ∈ p.run.graph.nodes)
    (hc : k.isComplete = true) : k.outputs.isSome = true :=
  (Ledger.of_start h).isSome_outputs (fun _ hn => (isComplete_iff_of_mem_plan hn).2)
    (fun _ hn => isSome_outputs_of_mem_plan hblue hf hn) hk hc

/-! ### Nodes that have their turn -/

/-- A node of the queue that is no deletion stands as planned for a wanted one. -/
theorem exists_planned_of_queued (h : Reaches o (Point.start (plan now before after)) p) (hn : n ∈ p.queue)
    (ha : n.action ≠ .delete) : ∃ j ∈ after.nodes, n = planned before after j := by
  have hp := Inv.of_start h
  obtain ⟨-, hnc, -, -⟩ := hp.queued n hn
  rcases mem_nodes_plan ((Traced.of_start h).mem_of_queued hp hn) with hmem | ⟨c, -, m, -, -, inputs, rfl⟩
  · rcases planned_or_deletion_of_mem_skeleton hmem with hplanned | ⟨d, -, rfl⟩
    · exact hplanned
    · exact absurd rfl ha
  · -- what was found unchanged is complete
    cases hnc

/-- **What the tokens of a queued node refer to is complete, and its outputs are seen.** -/
theorem exists_output_of_queued (hclosed : Closed after) (hf : Furnished before)
    (h : Reaches o (Point.start (plan now before after)) p) (hn : n ∈ after.nodes)
    (hqueued : planned before after n ∈ p.queue) (hk : k ∈ after.nodes) (href : k.id ∈ n.referencedIds) :
    ∃ m ∈ p.run.graph.nodes, Incarnation before k m ∧ m.isComplete = true ∧
      ∃ v, m.outputs = some v ∧ p.outputs.lookup m.id = some v := by
  have hp := Inv.of_start h
  obtain ⟨-, -, -, hu⟩ := hp.queued _ hqueued
  have hedge : (⟨(next before n).id, (next before k).id⟩ : Edge) ∈ p.run.graph.edges := by
    rw [hp.edges]
    exact edge_mem_plan now before hclosed hn hk href
  obtain ⟨m, hm, hkm, hmc⟩ :=
    exists_complete_incarnation hclosed.blue hp hk (isUnblocked_iff.1 hu _ hedge rfl)
  obtain ⟨v, hv⟩ := Option.isSome_iff_exists.1 (isSome_outputs_of_reaches hclosed.blue hf h hm hmc)
  refine ⟨m, hm, hkm, hmc, v, hv, ?_⟩
  have hseen : p.outputs.lookup (next before k).id = (Infrastructure.outputs p.run.graph).lookup _ :=
    Sees.of_start h _ hqueued _ hedge rfl
  rw [hkm.id, hseen, ← hkm.id, lookup_outputs_of_mem hm hmc, hv]

/-! ### What is not found -/

/-- Whether a node did not find a reference for this cause alone: what it waits for is complete and no deletion,
and its outputs lack the key. -/
def Unreturned (g : Infrastructure) (id : String) : ExpressionError → Prop
  | .missingOutputKey source key =>
      (⟨id, source⟩ : Edge) ∈ g.edges ∧ ∃ m ∈ g.nodes, m.id = source ∧ m.isComplete = true ∧
        m.action ≠ .delete ∧ ∃ v, m.outputs = some v ∧ Reference.output? v key = none
  | _ => False

/-- What a node with whole tokens does not find was not returned. -/
theorem unreturned_of_queued (hclosed : Closed after) (hf : Furnished before)
    (h : Reaches o (Point.start (plan now before after)) p) (hpq : Reaches o p q) (hn : n ∈ after.nodes)
    (hqueued : planned before after n ∈ p.queue) {cause : ExpressionError}
    (hres : Reference.resolve p.outputs (planned before after n).inputs = .error cause) (hw : Whole n) :
    Unreturned q.run.graph (next before n).id cause := by
  obtain ⟨e', he', hlookup⟩ := Reference.exists_lookup_eq_error hres
  rw [visitExpressions_planned before hclosed hn hw] at he'
  obtain ⟨e, he, rfl⟩ := List.mem_map.1 he'
  obtain ⟨k, hk, key, hkey, rfl, hrenamed⟩ := renameExpression_of_token hclosed hn he
  have href : k.id ∈ n.referencedIds :=
    InfraNode.mem_referencedIds.2 ⟨_, he, ⟨k.id, key⟩, Reference.ofExpression?_expression hkey, rfl⟩
  obtain ⟨m, hm, hkm, hmc, v, hv, hseen⟩ := exists_output_of_queued hclosed hf h hn hqueued hk href
  rw [hrenamed] at hlookup
  rw [hkm.id] at hseen
  obtain ⟨rfl, hnone⟩ :=
    Reference.lookup_eq_error (Reference.ofExpression?_expression hkey) hseen hlookup
  have hp := Inv.of_start h
  refine ⟨?_, m, hp.complete_mem_of_reaches hpq hm hmc, hkm.id, hmc, hkm.action, v, hv, hnone⟩
  show (⟨(next before n).id, (next before k).id⟩ : Edge) ∈ q.run.graph.edges
  rw [(hp.of_reaches hpq).edges]
  exact edge_mem_plan now before hclosed hn hk href

/-- Tokens without closing braces are whole. -/
theorem whole_of_references (hclosed : Closed after) (hn : n ∈ after.nodes)
    (h : ∀ r ∈ Reference.all n.inputs, '\x7d' ∉ r.expression.toList) : Whole n := by
  intro e he
  obtain ⟨r, hr, -⟩ := hclosed.tokens n hn e he
  refine Text.contains_of_not_mem fun hbrace => h r (List.mem_filterMap.2 ⟨e, he, hr⟩) ?_
  rwa [← (Reference.eq_expression_of_ofExpression? hr).1]

/-- **A run of a plan for a compiled target fails for a reference only if a plugin did not return the key, or if
a token of the node broke up**, whatever the scheduler and the plugins did.  Without closing braces in the names
and keys of references it is always the key. -/
theorem unreturned_or_broken {d : Definition} {app : AppGraph} {options : CompileOptions}
    (hcompile : d.compile app options = .ok after) (hf : Furnished before) {σ : Type} (o : RunOptions)
    (scheduler : Run.Scheduler σ) (s : σ) (now time : Instant) :
    let r := (Run.execute o scheduler time (plan now before after) s).1
    (∀ id cause, r.outcome = .error (.unresolvedReference id cause) →
      Unreturned r.graph id cause ∨ ∃ n ∈ after.nodes, (next before n).id = id ∧ ¬ Whole n) ∧
    ((∀ n ∈ after.nodes, ∀ ref ∈ Reference.all n.inputs, '\x7d' ∉ ref.expression.toList) →
      ∀ id cause, r.outcome = .error (.unresolvedReference id cause) → Unreturned r.graph id cause) := by
  intro r
  have hclosed := Compile.closed_of_compile hcompile
  obtain ⟨seen, h⟩ := Run.reaches_execute o scheduler time (plan now before after) s
  have hall : ∀ id cause, r.outcome = .error (.unresolvedReference id cause) →
      Unreturned r.graph id cause ∨ ∃ n ∈ after.nodes, (next before n).id = id ∧ ¬ Whole n := by
    intro id cause houtcome
    have hfailure := Run.failure_of_outcome houtcome fun _ he => by cases he
    obtain ⟨p, m, hsp, hpq, rfl, hstuck⟩ := Run.exists_refusal h hfailure
    obtain ⟨⟨rest, hqueue⟩, -, -, hliving, hres⟩ := hstuck
    have hqueued : m ∈ p.queue := by
      rw [hqueue]
      exact List.mem_cons_self
    obtain ⟨n, hn, rfl⟩ := exists_planned_of_queued hsp hqueued hliving
    by_cases hw : Whole n
    · exact Or.inl (unreturned_of_queued hclosed hf hsp hpq hn hqueued hres hw)
    · exact Or.inr ⟨n, hn, rfl, hw⟩
  refine ⟨hall, fun hplain id cause houtcome => (hall id cause houtcome).resolve_right ?_⟩
  rintro ⟨n, hn, -, hbroken⟩
  exact hbroken (whole_of_references hclosed hn (hplain n hn))

/-! ### Two modules and a third -/

/-- Nothing was there before, and the first module does not return what the second refers to. -/
theorem unreturned_plainText :
    twoModules.compile Graph.empty (given plainText) = .ok (target plainText) ∧ Furnished Graph.empty ∧
      ∃ cause, (Rehearsal.execute ⟨2, none⟩ [] (plan Instant.epoch Graph.empty (target plainText))).outcome
          = .error (.unresolvedReference "module/u@blue" cause) ∧
        Unreturned (Rehearsal.execute ⟨2, none⟩ [] (plan Instant.epoch Graph.empty (target plainText))).graph
          "module/u@blue" cause := by
  have hcompile : twoModules.compile Graph.empty (given plainText) = .ok (target plainText) :=
    compile_eq_target (by decide +kernel)
  have hf : Furnished Graph.empty := by decide
  have hfailure : (Rehearsal.execute ⟨2, none⟩ [] (plan Instant.epoch Graph.empty (target plainText))).failure
      = some (.unresolvedReference "module/u@blue" (.missingOutputKey "module/a@blue" "z\"")) := by
    decide +kernel
  have houtcome := Run.outcome_of_failure hfailure
  have hplain : ∀ n ∈ (target plainText).nodes, ∀ ref ∈ Reference.all n.inputs,
      '\x7d' ∉ ref.expression.toList := by decide +kernel
  exact ⟨hcompile, hf, _, houtcome, (unreturned_or_broken hcompile hf ⟨2, none⟩ (Rehearsal.scheduler [])
    Rehearsal.start Instant.epoch Instant.epoch).2 hplain _ _ houtcome⟩

/-- The first module, one with a quote in its name, and a module that takes a text from outside and an output of
the one with the quote. -/
def quoted : Definition :=
  ⟨[("v", Metadata.ofType "string")],
    [("a", ⟨"img", .pulumi, .obj []⟩), ("a\"b", ⟨"img", .pulumi, .obj []⟩),
      ("u", ⟨"img", .pulumi, .obj [("t", .str "$\x7b\x7b variable.v \x7d\x7d"),
        ("w", .str "$\x7b\x7b module.a\"b.id \x7d\x7d")]⟩)], []⟩

/-- Compiled, this is a reference to the first module and then one to the module with the quote.  The quote makes
the closing braces after it a part of the key. -/
def quotedText : String :=
  "$\x7b module.a.x\x7b\x7b\"\x7d\x7d$\x7bmodule/a\"b@blue.\x7d\x7d y\" \x7d\"\x7d"

/-- What the modules are compiled into. -/
def quotedTarget : Infrastructure :=
  ((quoted.compile Graph.empty (given quotedText)).toOption).getD Graph.empty

/-- What the last module is given there. -/
def quotedInputs : Value :=
  .obj [("t", .str ("$\x7b\x7b module/a@blue.x\x7b\x7b\"\x7d\x7d" ++
      "$\x7bmodule/a\"b@blue.\x7d\x7d y\" \x7d\" \x7d\x7d")),
    ("w", .str "$\x7b\x7b module/a\"b@blue.id \x7d\x7d")]

/-- Both modules return what is asked of them. -/
def quotedScript : Script :=
  [("module/a@blue", { Part.usual with outputs := some (.obj [("x\x7b\x7b\"", .ofNat 1)]) }),
    ("module/a\"b@blue", { Part.usual with
      outputs := some (.obj [("\x7d\x7d y\"", .ofNat 2), ("id", .ofNat 3)]) })]

/-- **A compiled target can fail for what is no reference.**  All names are free of closing braces and each dollar
sign begins a token, but written anew the second token ends at the closing braces of its key. -/
theorem broken_quotedText :
    quoted.compile Graph.empty (given quotedText) = .ok quotedTarget ∧ Furnished Graph.empty ∧
      (∀ n ∈ quotedTarget.nodes, '\x7d' ∉ n.id.toList) ∧
      (quotedTarget.node? "module/u@blue").map InfraNode.inputs = some quotedInputs ∧
      (Rehearsal.execute ⟨2, none⟩ quotedScript (plan Instant.epoch Graph.empty quotedTarget)).outcome
        = .error (.unresolvedReference "module/u@blue" (.invalidReference "module/a\"b@blue.")) := by
  have hrun : (quoted.compile Graph.empty (given quotedText)).toOption.isSome = true ∧
      (∀ n ∈ quotedTarget.nodes, '\x7d' ∉ n.id.toList) ∧
      (quotedTarget.node? "module/u@blue").map InfraNode.inputs = some quotedInputs ∧
      (Rehearsal.execute ⟨2, none⟩ quotedScript (plan Instant.epoch Graph.empty quotedTarget)).failure
        = some (.unresolvedReference "module/u@blue" (.invalidReference "module/a\"b@blue.")) := by
    decide +kernel
  obtain ⟨hcompile, hnames, hinputs, hfailure⟩ := hrun
  exact ⟨eq_ok_getD hcompile Graph.empty, by decide, hnames, hinputs, Run.outcome_of_failure hfailure⟩

end Groundwork.Plan
