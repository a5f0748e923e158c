import Groundwork.Proofs.Run.Answers
import Groundwork.Proofs.Run.Safety
import Groundwork.Proofs.Template.Filling
import Groundwork.Proofs.Template.Unescaping
import Groundwork.Run.Rehearsal

/-!
# What reaches a plugin

A node goes to its plugin with outputs in the place of references and with what literal openers stand for in
their place.  The two passes come one after the other, and the second does not know what the first put in: an
output goes out as it is only if no text of it has a literal opener.

Main statements: every call for a node that is not deleted comes from one of the plan, and hands over the outputs
that the tokens of its inputs refer to and the texts without tokens, both unescaped (`execute_delivers`); an output
that a plugin returned reaches another one changed (`output_altered`).
-/

namespace Groundwork

namespace Reference

/-- The output that an expression refers to, if it is found. -/
def found? (outputs : Table Value) (e : String) : Option Value := (lookup outputs e).toOption

/-- **What can be resolved has outputs spliced in.** -/
theorem eq_splice_of_resolve {outputs : Table Value} {v w : Value} (h : resolve outputs v = .ok w) :
    w = Template.splice (found? outputs) v := by
  have hputs : Template.replacement (fun e => (lookup outputs e).map some) = found? outputs := by
    funext e
    unfold Template.replacement found?
    dsimp only
    cases lookup outputs e with
    | ok y => rfl
    | error err => rfl
  rw [← hputs]
  exact Template.eq_splice_of_mapExpressions h

end Reference

namespace Run

open Relation
open Infrastructure

variable {o : RunOptions} {h : Infrastructure}

/-! ### Outputs behind tokens -/

/-- Whether an expression refers to an output of a complete node, which is this value. -/
def RefersTo (h : Infrastructure) (e : String) (v : Value) : Prop :=
  ∃ r, Reference.ofExpression? e = some r ∧ ∃ m ∈ h.nodes, m.id = r.node ∧ m.isComplete = true ∧
    ∃ out, m.outputs = some out ∧ Reference.output? out r.key = some v

theorem refersTo_iff {e : String} {v : Value} :
    RefersTo h e v ↔ Reference.lookup (Infrastructure.outputs h) e = .ok v := by
  rw [Reference.lookup_eq_ok_iff]
  constructor
  · rintro ⟨r, hr, m, hm, hid, hc, out, hout, hv⟩
    exact ⟨r, out, hr, lookup_outputs.2 ⟨m, hm, hid, hc, hout⟩, hv⟩
  · rintro ⟨r, out, hr, hlookup, hv⟩
    obtain ⟨m, hm, hid, hc, hout⟩ := lookup_outputs.1 hlookup
    exact ⟨r, hr, m, hm, hid, hc, out, hout, hv⟩

/-! ### What a text is handed over as -/

/-- Whether a text in the inputs of a node is handed over as this value.  In the place of a token that is all of the
text stands the output that it refers to, unescaped, which is that output itself exactly if it is unescaped
already; and a text without tokens has what its literal openers stand for in their place. -/
structure Arrives (h : Infrastructure) (t : String) (part : Value) : Prop where
  token : ∀ e, Template.parse t = [.expr e] →
    ∃ v, RefersTo h e v ∧ part = Template.unescape v ∧ (part = v ↔ Template.Unescaped v)
  literal : Template.expressions (Template.parse t) = [] →
    ∃ u, part = .str u ∧ Text.Exchanged Template.literalOpener Template.opener t.toList u.toList

/-- Whether a call hands over the inputs of a node: each text arrives where it stood in them.  Of inputs that are no
object nothing is handed over. -/
def Delivers (h : Infrastructure) (n : InfraNode) (c : Call) : Prop :=
  n.id = c.id ∧ n.action = c.action ∧ ∃ whole, c.request.inputs = inputPairs whole ∧
    (∀ fields, n.inputs = .obj fields → whole = .obj c.request.inputs) ∧
    ∀ place t, Path.find? n.inputs place = some (.str t) →
      ∃ part, Path.find? whole place = some part ∧ Arrives h t part

/-- What is in the place of a token that is all of a text is the output that it refers to. -/
theorem refersTo_of_single {v w : Value} {t e : String}
    (hresolve : Reference.resolve (Infrastructure.outputs h) v = .ok w) (ht : t ∈ v.texts)
    (hparse : Template.parse t = [.expr e]) :
    RefersTo h e (Template.splice (Reference.found? (Infrastructure.outputs h)) (.str t)) := by
  have he : e ∈ Template.visitExpressions v := by
    refine Template.mem_visitExpressions_iff.2 ⟨t, ht, ?_⟩
    rw [hparse]
    exact List.mem_singleton.2 rfl
  obtain ⟨u, hu⟩ := Reference.exists_lookup_eq_ok hresolve he
  rw [Template.splice_of_single hparse, Reference.found?, hu]
  exact refersTo_iff.2 hu

/-- **Each text of inputs arrives**: what becomes of it is found where it was. -/
theorem exists_arrives {v w : Value} {t : String} {place : Path}
    (hresolve : Reference.resolve (Infrastructure.outputs h) v = .ok w) (ht : Path.find? v place = some (.str t)) :
    ∃ part, Path.find? (Template.unescape w) place = some part ∧ Arrives h t part := by
  have hpasses := Template.descends_unescape.comp (Template.descends_splice (Reference.found? (outputs h)))
  have hplace := hpasses.find? ht
  rw [← Reference.eq_splice_of_resolve hresolve] at hplace
  have hmem : t ∈ v.texts := List.mem_filterMap.2 ⟨.str t, Value.mem_parts_of_find? ht, rfl⟩
  refine ⟨_, hplace, ?_⟩
  exact {
    token := fun e hparse =>
      ⟨_, refersTo_of_single hresolve hmem hparse, rfl, Template.unescape_eq_self_iff _⟩
    literal := by
      intro hnone
      rw [Template.splice_of_expressions_eq_nil hnone]
      exact ⟨Template.unescapeText t, rfl, Template.exchanged_unescapeText t⟩ }

/-! ### Calls -/

/-- A call that is made with these outputs hands over the inputs of its node. -/
theorem delivers_callFor {now : Instant} {n m : InfraNode}
    (hprepared : prepare (Infrastructure.outputs h) now n = .ok m) (ha : (callFor o m).action ≠ .delete) :
    Delivers h n (callFor o m) := by
  obtain ⟨hsame, -, -, -, hinputs⟩ := prepare_eq_ok hprepared
  have hresolve : Reference.resolve (Infrastructure.outputs h) n.inputs = .ok m.inputs :=
    (hinputs.resolve_left fun hdelete => ha (hsame.action.trans hdelete.1)).2
  refine ⟨hsame.id.symm, hsame.action.symm, Template.unescape m.inputs, rfl, fun fields hfields => ?_,
    fun place t ht => exists_arrives hresolve ht⟩
  have hw := Reference.eq_splice_of_resolve hresolve
  rw [hfields] at hw
  show Template.unescape m.inputs = .obj (inputPairs (Template.unescape m.inputs))
  rw [hw, (Template.descends_splice _).fields, Template.descends_unescape.fields]
  rfl

/-- **What reaches a plugin.**  Whatever the scheduler and the plugins do, every call for a node that is not deleted
is made at some moment of the run, for a node of the plan, and delivers the inputs of that node with the outputs of
the nodes that are complete at that moment. -/
theorem execute_delivers {σ : Type} (o : RunOptions) (scheduler : Scheduler σ) (now : Instant) (g : Infrastructure)
    (s : σ) {c : Call} (hc : c ∈ (execute o scheduler now g s).1.calls) (ha : c.action ≠ .delete) :
    ∃ p q seen, Reaches o (Point.start g) p ∧ Move o p q ∧ c ∈ q.run.calls ∧ c ∉ p.run.calls ∧
      Reaches o q ⟨(execute o scheduler now g s).1, seen, []⟩ ∧ ∃ n ∈ g.nodes, Delivers p.run.graph n c := by
  obtain ⟨seen, hreaches⟩ := reaches_execute o scheduler now g s
  obtain ⟨p, q, hp, hmove, hq, hcq, hcp⟩ := exists_move_of_call hreaches hc fun h => by cases h
  obtain ⟨n, hn, m, start, hprepared, rfl⟩ := hmove.exists_prepared hcq hcp
  have ht := Traced.of_start hp
  -- the stage sees outputs that are still there when the call is made
  have hdelivers := delivers_callFor (prepare_of_within ht.seen hprepared) ha
  exact ⟨p, q, seen, hp, hmove, hcq, hcp, hq, n, ht.mem_of_queued (Inv.of_start hp) hn, hdelivers⟩

/-- A script that is an output of another module, with a note that has a literal opener. -/
def script : InfraNode :=
  { InfraNode.create ⟨"module", "b", none, none⟩ "img" .pulumi with
    inputs := .obj
      [("note", .str "from $$\x7ba\x7d"), ("script", .str "$\x7b\x7b module/a@blue.t \x7d\x7d")] }

/-- The script and the module that it comes from. -/
def relay : Infrastructure :=
  Graph.ofParts [InfraNode.create ⟨"module", "a", none, none⟩ "img" .pulumi, script]
    [⟨"module/b@blue", "module/a@blue"⟩]

/-- A run in which this is the output. -/
def relayed (output : String) : Run :=
  Rehearsal.execute .single [("module/a@blue", { Part.usual with outputs := some (.obj [("t", .str output)]) })] relay

/-- A call for the script. -/
def scriptCall (note text : String) : Call where
  action := .create
  plugin := .pulumi
  request := ⟨"module/b@blue", "img", [("note", .str note), ("script", .str text)], none, false⟩

/-- An output without literal openers is delivered as it is. -/
theorem execute_delivers_relayed :
    scriptCall "from $\x7ba\x7d" "db-1" ∈ (relayed "db-1").calls ∧
      ∃ p, Reaches .single (Point.start relay) p ∧
        ∃ n ∈ relay.nodes, Delivers p.run.graph n (scriptCall "from $\x7ba\x7d" "db-1") := by
  have hc : scriptCall "from $\x7ba\x7d" "db-1" ∈ (relayed "db-1").calls := by decide +kernel
  obtain ⟨p, -, -, hp, -, -, -, -, hdelivers⟩ :=
    execute_delivers .single (Rehearsal.scheduler _) Instant.epoch relay Rehearsal.start hc nofun
  exact ⟨hc, p, hp, hdelivers⟩

/-- **An output that reads like a literal opener reaches the plugin as something else**, though the input is one token
and the node that it refers to is complete. -/
theorem output_altered :
    ∃ c ∈ (relayed "$$\x7bHOME\x7d").calls, c.action = .create ∧ ∃ n ∈ relay.nodes, n.id = c.id ∧
      ∃ place t e v part, Path.find? n.inputs place = some (.str t) ∧ Template.parse t = [.expr e] ∧
        RefersTo (relayed "$$\x7bHOME\x7d").graph e v ∧
        Path.find? (.obj c.request.inputs) place = some part ∧ part ≠ v := by
  refine ⟨scriptCall "from $\x7ba\x7d" "$\x7bHOME\x7d", by decide +kernel, rfl, script, by decide +kernel,
    by decide +kernel, [.field "script"], "$\x7b\x7b module/a@blue.t \x7d\x7d", "module/a@blue.t",
    .str "$$\x7bHOME\x7d", .str "$\x7bHOME\x7d", rfl, by decide +kernel, ?_, rfl, by decide⟩
  have hlookup : (Reference.lookup (outputs (relayed "$$\x7bHOME\x7d").graph) "module/a@blue.t").toOption =
      some (.str "$$\x7bHOME\x7d") := by decide +kernel
  refine refersTo_iff.2 ?_
  cases hfound : Reference.lookup (outputs (relayed "$$\x7bHOME\x7d").graph) "module/a@blue.t" with
  | ok v =>
    rw [hfound] at hlookup
    exact congrArg Except.ok (Option.some.inj hlookup)
  | error err =>
    rw [hfound] at hlookup
    cases hlookup

end Run

end Groundwork
