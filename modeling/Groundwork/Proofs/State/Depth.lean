import Groundwork.Proofs.Json.RoundTrip
import Groundwork.Proofs.State.Documents
import Groundwork.Proofs.State.Operations

/-!
# Records that are saved and cannot be loaded

A record is written whatever the depth of the values in it, and is read only if no more arrays and objects are inside
of each other than a reader allows.  Around a value of a node there are four: the record, its graph, the list of
nodes and the node.

Main statement: `recordRead_render`, what is loaded of the text that is saved for a record.
-/

namespace Groundwork

namespace Value

theorem itemsHeight_le_iff {items : List Value} {k : Nat} : height.itemsHeight items ≤ k ↔ ∀ v ∈ items, v.height ≤ k := by
  induction items with
  | nil => simp [height.itemsHeight]
  | cons v items ih => simp [height.itemsHeight, ih]

theorem fieldsHeight_le_iff {fields : Table Value} {k : Nat} :
    height.fieldsHeight fields ≤ k ↔ ∀ p ∈ fields, p.2.height ≤ k := by
  induction fields with
  | nil => simp [height.fieldsHeight]
  | cons p fields ih => simp [height.fieldsHeight, ih]

theorem height_arr_le_iff {items : List Value} {k : Nat} :
    (arr items).height ≤ k + 1 ↔ ∀ v ∈ items, v.height ≤ k := by
  rw [height, Nat.add_le_add_iff_right, itemsHeight_le_iff]

theorem height_obj_le_iff {fields : Table Value} {k : Nat} :
    (obj fields).height ≤ k + 1 ↔ ∀ p ∈ fields, p.2.height ≤ k := by
  rw [height, Nat.add_le_add_iff_right, fieldsHeight_le_iff]

end Value

theorem forall_mem_optional {k : String} {f : α → Value} {o : Option α} {P : String × Value → Prop} :
    (∀ p ∈ Encode.optional k f o, P p) ↔ ∀ a ∈ o, P (k, f a) := by
  cases o <;> simp [Encode.optional]

@[simp] theorem Value.height_str (s : String) : (str s).height = 0 := rfl

/-! ### What is around the values of nodes -/

theorem Status.height_toValue_le (s : Status) : s.toValue.height ≤ 1 := by
  rw [toValue, Value.height_obj_le_iff]
  simp only [List.forall_mem_append, List.forall_mem_singleton, forall_mem_optional]
  simp [timeValue]

theorem Edge.height_toValue_le (e : Edge) : e.toValue.height ≤ 1 := by
  rw [toValue, Value.height_obj_le_iff]
  simp

theorem HistoryEntry.height_toValue_le (e : HistoryEntry) : e.toValue.height ≤ 2 := by
  obtain ⟨time, operation, nodes, success, error⟩ := e
  have hnodes : (Value.ofStrings nodes).height ≤ 1 := by
    rw [Value.ofStrings, Value.height_arr_le_iff]
    simp
  have herror : (Value.ofOption Value.str error).height = 0 := by cases error <;> rfl
  rw [toValue, Value.height_obj_le_iff]
  simp [Status.timeValue, hnodes, herror, Value.height]

theorem StateKey.height_toValue_le (k : StateKey) : k.toValue.height ≤ 1 := by
  rw [toValue, Value.height_obj_le_iff]
  simp only [List.forall_mem_cons, forall_mem_optional]
  simp

/-- The values of a node. -/
def InfraNode.values (n : InfraNode) : List Value := n.inputs :: (n.outputs.toList ++ n.state.toList)

theorem InfraNode.height_toValue_le_iff {n : InfraNode} {k : Nat} :
    n.toValue.height ≤ k + 2 ↔ ∀ v ∈ n.values, v.height ≤ k + 1 := by
  have hstatus : n.status.toValue.height ≤ k + 1 := n.status.height_toValue_le.trans (Nat.le_add_left 1 k)
  rw [toValue, Value.height_obj_le_iff]
  simp only [Key.toFields, List.forall_mem_append, List.forall_mem_cons, forall_mem_optional]
  simp [values, hstatus, or_imp, forall_and, and_assoc]

theorem Record.height_toValue_le_iff {r : Record} {k : Nat} :
    r.toValue.height ≤ k + 5 ↔ ∀ n ∈ r.graph.nodes, ∀ v ∈ n.values, v.height ≤ k + 1 := by
  have hkey : r.key.toValue.height ≤ k + 4 := r.key.height_toValue_le.trans (by omega)
  have hedges : (Value.arr (r.graph.edges.map Edge.toValue)).height ≤ k + 3 := by
    rw [Value.height_arr_le_iff]
    simpa using fun e _ => e.height_toValue_le.trans (by omega)
  have hhistory : (Value.arr (r.history.map HistoryEntry.toValue)).height ≤ k + 4 := by
    rw [Value.height_arr_le_iff]
    simpa using fun e _ => e.height_toValue_le.trans (by omega)
  have hnodes : (Value.arr (r.graph.nodes.map InfraNode.toValue)).height ≤ k + 3 ↔
      ∀ n ∈ r.graph.nodes, ∀ v ∈ n.values, v.height ≤ k + 1 := by
    rw [Value.height_arr_le_iff]
    simp [InfraNode.height_toValue_le_iff]
  have hgraph : (Infrastructure.toValue r.graph).height ≤ k + 4 ↔
      (Value.arr (r.graph.nodes.map InfraNode.toValue)).height ≤ k + 3 := by
    rw [Infrastructure.toValue, Graph.toValue, Value.height_obj_le_iff]
    simp [hedges]
  rw [toValue, Value.height_obj_le_iff, ← hnodes, ← hgraph]
  simp [hkey, hhistory, Status.timeValue]

/-! ### What is loaded of what is saved -/

/-- The node without outputs and a state that are null. -/
def InfraNode.withoutNulls (n : InfraNode) : InfraNode :=
  { n with outputs := n.outputs.filter (!·.isNull), state := n.state.filter (!·.isNull) }

theorem InfraNode.asRead_of_tidy {n : InfraNode} (h : ∀ v ∈ n.values, v.Tidy) : n.asRead = n.withoutNulls := by
  have hpart : ∀ o : Option Value, (∀ v ∈ o, v.Tidy) →
      (o.filter (!·.isNull)).map Value.sorted = o.filter (!·.isNull) := by
    intro o ho
    cases o with
    | none => rfl
    | some v => cases v <;> first | rfl | exact congrArg some (ho _ rfl)
  have hinputs : n.inputs.Tidy := h _ List.mem_cons_self
  rw [asRead, withoutNulls, hinputs.sorted_eq, hpart n.outputs fun v hv => h v (by simp [values, Option.mem_def.1 hv]),
    hpart n.state fun v hv => h v (by simp [values, Option.mem_def.1 hv])]

namespace Record

/-- The record with outputs and states left out that are null. -/
def withoutNulls (r : Record) : Record :=
  { r with graph := r.graph.mapNodes InfraNode.withoutNulls fun _ => rfl }

/-- Whether the values of a record are values of documents: their objects are sorted. -/
def Tidy (r : Record) : Prop := ∀ n ∈ r.graph.nodes, ∀ v ∈ n.values, v.Tidy

/-- Whether no value of a record has more arrays and objects inside of each other than can be read of it. -/
def Shallow (r : Record) : Prop := ∀ n ∈ r.graph.nodes, ∀ v ∈ n.values, v.height + 4 ≤ Json.maxDepth

theorem shallow_iff {r : Record} : r.Shallow ↔ r.toValue.height ≤ Json.maxDepth := by
  have hbound : Json.maxDepth = 122 + 5 := rfl
  have hvalue : ∀ v : Value, v.height + 4 ≤ 122 + 5 ↔ v.height ≤ 122 + 1 := fun v => by omega
  simp only [Shallow, hbound, height_toValue_le_iff, hvalue]

theorem asRead_of_tidy {r : Record} (h : r.Tidy) : r.asRead = r.withoutNulls := by
  have hgraph : r.graph.mapNodes InfraNode.asRead (fun _ => rfl)
      = r.graph.mapNodes InfraNode.withoutNulls fun _ => rfl :=
    Graph.ext (List.map_congr_left fun n hn => InfraNode.asRead_of_tidy (h n hn)) rfl
  rw [asRead, withoutNulls, hgraph]

/-- A record is read back from its text exactly if it is shallow enough. -/
theorem ofText?_render_eq {r : Record} (htimes : ∀ t ∈ r.times, t.Writable)
    (hnumbers : ∀ n ∈ r.toValue.numbers, Json.ReadsBack n) :
    ofText? r.render = if r.toValue.height ≤ Json.maxDepth then some r.asRead else none := by
  rw [ofText?, render, Json.document_pretty_eq hnumbers]
  split
  · exact ofValue?_toValue htimes
  · rfl

/-- **What is saved is what is loaded, unless it is too deep.**  Of the text that is saved for a record of the current
version the record itself is loaded, with the same key, history, nodes and edges, except that outputs or a state that
are null are missing.  A record that has a value with too many arrays and objects inside of each other is saved as
well, and what is loaded of it is an error. -/
theorem recordRead_render {r : Record} (hversion : r.version = currentVersion) (htidy : r.Tidy)
    (htimes : ∀ t ∈ r.times, t.Writable) (hnumbers : ∀ n ∈ r.toValue.numbers, Json.ReadsBack n) (path : String) :
    (r.Shallow → LocalStore.recordRead path r.render = .ok (some r.withoutNulls)) ∧
      (¬r.Shallow → ∃ message, LocalStore.recordRead path r.render = .error (.corrupted message)) := by
  rw [shallow_iff, LocalStore.recordRead, ofText?_render_eq htimes hnumbers, asRead_of_tidy htidy]
  constructor
  · intro hdepth
    have hcheck : r.withoutNulls.checkVersion = .ok r.withoutNulls := if_pos hversion
    rw [if_pos hdepth]
    simp only [hcheck]
    rfl
  · intro hdepth
    rw [if_neg hdepth]
    exact ⟨_, rfl⟩

/-- A record of one module that has run, with outputs that are null. -/
def sampleRecord : Record :=
  let module : InfraNode := { InfraNode.create ⟨"module", "db", none, some "prod"⟩ "acme/db" .opentofu with
    inputs := .obj [("name", .str "db"), ("size", .null)]
    status := .completeAt Instant.epoch
    outputs := some .null
    state := some (.str "rows") }
  { fresh Instant.epoch ⟨"dc", some "prod"⟩ with
    graph := Graph.empty.insertNode module
    history := [.ofRun Instant.epoch .apply [module.id] none] }

theorem recordRead_render_sample : sampleRecord.version = currentVersion ∧ sampleRecord.Tidy ∧
    (∀ t ∈ sampleRecord.times, t.Writable) ∧ (∀ n ∈ sampleRecord.toValue.numbers, Json.ReadsBack n) ∧
    LocalStore.recordRead "dc/environments/prod.json" sampleRecord.render = .ok (some sampleRecord.withoutNulls) := by
  have hversion : sampleRecord.version = currentVersion := rfl
  have htidy : sampleRecord.Tidy := by
    unfold Tidy
    decide +kernel
  have htimes : ∀ t ∈ sampleRecord.times, t.Writable := by decide +kernel
  have hnumbers : ∀ n ∈ sampleRecord.toValue.numbers, Json.ReadsBack n := by
    have hnone : sampleRecord.toValue.numbers = [] := by decide +kernel
    rw [hnone]
    exact fun n hn => absurd hn List.not_mem_nil
  have hshallow : sampleRecord.Shallow := by
    unfold Shallow
    decide +kernel
  exact ⟨hversion, htidy, htimes, hnumbers, (recordRead_render hversion htidy htimes hnumbers _).1 hshallow⟩

/-- So many lists, one inside of the other. -/
def nested : Nat → Value
  | 0 => .null
  | n + 1 => .arr [nested n]

/-- A record of one module that is to be run with inputs that can be read of a definition, but not of a record. -/
def deepRecord : Record :=
  { fresh Instant.epoch ⟨"dc", none⟩ with
    graph := Graph.empty.insertNode
      { InfraNode.create ⟨"module", "db", none, none⟩ "acme/db" .pulumi with inputs := nested 124 } }

/-- **A record that is saved and cannot be loaded.** -/
theorem recordRead_deepRecord : deepRecord.version = currentVersion ∧ deepRecord.Tidy ∧
    (∀ t ∈ deepRecord.times, t.Writable) ∧ (∀ n ∈ deepRecord.toValue.numbers, Json.ReadsBack n) ∧
    LocalStore.recordRead "dc/datacenter.json" deepRecord.render
      = .error (.corrupted "Failed to parse dc/datacenter.json: not a record") := by
  have htimes : ∀ t ∈ deepRecord.times, t.Writable := by decide +kernel
  have hnumbers : ∀ n ∈ deepRecord.toValue.numbers, Json.ReadsBack n := by
    have hnone : deepRecord.toValue.numbers = [] := by decide +kernel
    rw [hnone]
    exact fun n hn => absurd hn List.not_mem_nil
  have hdeep : ¬deepRecord.toValue.height ≤ Json.maxDepth := by decide +kernel
  refine ⟨rfl, ?_, htimes, hnumbers, ?_⟩
  · unfold Tidy
    decide +kernel
  · rw [LocalStore.recordRead, ofText?_render_eq htimes hnumbers, if_neg hdeep]
    rfl

end Record

end Groundwork
