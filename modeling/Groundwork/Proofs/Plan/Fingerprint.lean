import Groundwork.Proofs.Data.Sorted
import Groundwork.Proofs.Json.Compact
import Groundwork.Proofs.Plan.Contents

/-!
# What a fingerprint identifies

A fingerprint is the hash of a text that is written for the plugin, the image and the inputs of an invocation.
The text tells all three, whatever characters they hold, so two invocations of the same fingerprint are the same
one, or their texts collide.

Main statements: a no-op of a plan has the fingerprint of what was applied before (`nodeFingerprint_of_mem_plan`),
and invocations are told apart by their texts (`invocationText_eq_iff_alike`).
-/

namespace Groundwork

/-- Whether two texts are different ones of the same hash. -/
def Sha256.Collide (s t : String) : Prop := s ≠ t ∧ Sha256.hexDigest s = Sha256.hexDigest t

theorem Sha256.hexDigest_eq_iff {s t : String} (h : ¬ Sha256.Collide s t) :
    Sha256.hexDigest s = Sha256.hexDigest t ↔ s = t := by
  constructor
  · intro hhash
    by_contra hne
    exact h ⟨hne, hhash⟩
  · exact fun heq => heq ▸ rfl

theorem PluginKind.name_inj {p q : PluginKind} (h : p.name = q.name) : p = q := by
  cases p <;> cases q <;> simp_all [PluginKind.name]

namespace Plan

variable {now : Instant} {before after : Infrastructure}

/-! ### Texts of invocations -/

theorem integral_invocation (p : PluginKind) (image : String) {v : Value} (hv : v.Integral) :
    (invocation p image v).Integral := by
  rw [invocation, Value.integral_obj_iff]
  intro f hf
  simp only [List.mem_cons, List.not_mem_nil, or_false] at hf
  rcases hf with rfl | rfl | rfl
  · exact fun n hn => by cases hn
  · exact hv
  · exact fun n hn => by cases hn

/-- The text of an invocation with integers for numbers tells all that is in it. -/
theorem invocationText_inj {p q : PluginKind} {image image' : String} {v w : Value} (hv : v.Integral)
    (hw : w.Integral) (h : invocationText p image v = invocationText q image' w) :
    p = q ∧ image = image' ∧ v = w := by
  have hsame := Json.compact_inj (integral_invocation p image hv) (integral_invocation q image' hw) h
  simp only [invocation, Value.obj.injEq, List.cons.injEq, Prod.mk.injEq, Value.str.injEq, true_and, and_true]
    at hsame
  exact ⟨PluginKind.name_inj hsame.2.2, hsame.1, hsame.2.1⟩

/-! ### Plans -/

/-- **A no-op has the fingerprint of what was applied before** for the node that it stands for. -/
theorem nodeFingerprint_of_mem_plan {m : InfraNode} (hm : m ∈ (plan now before after).nodes)
    (hno : m.action = .noOp) :
    ∃ n ∈ after.nodes, ∃ prev, previous? before n.key = some prev ∧ prev.isComplete = true ∧
      m.id = (next before n).id ∧ nodeFingerprint m = nodeFingerprint prev := by
  have hcandidate : ∃ c ∈ candidates before after, m.id = c.id ∧ nodeFingerprint m = c.fingerprint := by
    refine graph_findUnchanged_induction (candidates before after)
      (P := fun g => ∀ m ∈ g.nodes, m.action = .noOp →
        ∃ c ∈ candidates before after, m.id = c.id ∧ nodeFingerprint m = c.fingerprint) ?_
      (fun k hk hno => absurd hno (of_mem_skeleton hk).1) m hm hno
    intro g c inputs hc hsame hg m hm hno
    rcases mem_nodes_markUnchanged.1 hm with ⟨k, hk, hid, rfl⟩ | ⟨hm, -⟩
    · exact ⟨c, hc, hid, hsame k hk hid⟩
    · exact hg m hm hno
  obtain ⟨c, hc, hid, hsame⟩ := hcandidate
  obtain ⟨n, hn, hcn⟩ := List.mem_filterMap.1 hc
  obtain ⟨prev, hprev, -, hcomplete, rfl⟩ := candidate?_eq_some_iff.1 hcn
  exact ⟨n, hn, prev, hprev, hcomplete, hid, hsame⟩

/-! ### Telling invocations apart -/

/-- **Invocations are told apart by their texts**, whatever the order of fields in their inputs; and unless two
texts collide, by their fingerprints: what a plan takes for unchanged is what was applied before. -/
theorem invocationText_eq_iff_alike {p q : PluginKind} {image image' : String} {v w : Value} (hv : v.Integral)
    (hw : w.Integral) (hvDistinct : v.Distinct) (hwDistinct : w.Distinct) :
    (invocationText p image v.sorted = invocationText q image' w.sorted ↔
        p = q ∧ image = image' ∧ v.Alike w) ∧
      (¬ Sha256.Collide (invocationText p image v.sorted) (invocationText q image' w.sorted) →
        (fingerprint p image v.sorted = fingerprint q image' w.sorted ↔ p = q ∧ image = image' ∧ v.Alike w)) ∧
      ∀ now before after m, m ∈ (plan now before after).nodes → m.action = .noOp → m.inputs.Integral →
        ∃ n ∈ after.nodes, ∃ prev, previous? before n.key = some prev ∧ prev.isComplete = true ∧
          m.id = (next before n).id ∧ (prev.inputs.Integral →
            ¬ Sha256.Collide (invocationText m.plugin m.image m.inputs)
                (invocationText prev.plugin prev.image prev.inputs) →
              m.plugin = prev.plugin ∧ m.image = prev.image ∧ m.inputs = prev.inputs) := by
  have htext : invocationText p image v.sorted = invocationText q image' w.sorted ↔
      p = q ∧ image = image' ∧ v.Alike w := by
    rw [Value.alike_iff_sorted_eq hvDistinct hwDistinct]
    constructor
    · exact invocationText_inj hv.sorted hw.sorted
    · rintro ⟨rfl, rfl, hsorted⟩
      rw [hsorted]
  refine ⟨htext, fun hcollide => (Sha256.hexDigest_eq_iff hcollide).trans htext, ?_⟩
  intro now before after m hm hno hinputs
  obtain ⟨n, hn, prev, hprev, hcomplete, hid, hsame⟩ := nodeFingerprint_of_mem_plan hm hno
  refine ⟨n, hn, prev, hprev, hcomplete, hid, fun hprevInputs hcollide => ?_⟩
  exact invocationText_inj hinputs hprevInputs ((Sha256.hexDigest_eq_iff hcollide).1 hsame)

/-- Inputs with a quotation mark, a backslash, a control character and others beyond ASCII. -/
def awkwardInputs : Value :=
  .obj [("b\"", .arr [.ofInt 10, .ofInt (-1)]), ("a\\", .str "\"\x7dé\x01\n\\")]

/-- The same inputs with their fields in the other order. -/
def turnedInputs : Value :=
  .obj [("a\\", .str "\"\x7dé\x01\n\\"), ("b\"", .arr [.ofInt 10, .ofInt (-1)])]

/-- Inputs that differ in where a number ends. -/
def otherInputs : Value :=
  .obj [("a\\", .str "\"\x7dé\x01\n\\"), ("b\"", .arr [.ofInt 1, .ofInt 0, .ofInt (-1)])]

theorem invocationText_eq_iff_alike_awkward :
    (invocationText .pulumi "img" awkwardInputs.sorted = invocationText .pulumi "img" turnedInputs.sorted) ∧
      invocationText .pulumi "img" awkwardInputs.sorted ≠ invocationText .pulumi "img" otherInputs.sorted := by
  have hdistinct : awkwardInputs.Distinct ∧ turnedInputs.Distinct ∧ otherInputs.Distinct := by
    simp [awkwardInputs, turnedInputs, otherInputs, Value.distinct_obj_iff, Value.distinct_arr_iff,
      Value.distinct_num, Value.distinct_str, Table.keys, Value.ofInt]
  have hturned : awkwardInputs.Alike turnedInputs := by
    simp [awkwardInputs, turnedInputs, Value.alike_obj_iff, Value.alike_arr_iff, Value.alike_num_iff,
      Value.alike_str_iff, Table.keys, Value.ofInt]
  have hother : ¬ awkwardInputs.Alike otherInputs := by
    simp [awkwardInputs, otherInputs, Value.alike_obj_iff, Value.alike_arr_iff, Value.alike_num_iff,
      Value.alike_str_iff, Table.keys, Value.ofInt]
  exact ⟨(invocationText_eq_iff_alike (by decide) (by decide) hdistinct.1 hdistinct.2.1).1.2 ⟨rfl, rfl, hturned⟩,
    fun heq => hother
      ((invocationText_eq_iff_alike (by decide) (by decide) hdistinct.1 hdistinct.2.2).1.1 heq).2.2⟩

end Plan

end Groundwork
