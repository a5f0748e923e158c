import Groundwork.State.Store
import Groundwork.Proofs.Data.Decode
import Groundwork.Proofs.Data.Outcome
import Groundwork.Proofs.Graph.Contents
import Groundwork.Proofs.Json.RoundTrip
import Groundwork.Proofs.Time.RoundTrip

/-!
# What a store writes can be read

Locks and records are written as documents and read back part by part.  No name stands twice in a document that
is written, so that every part is found under its name.

Not every record that could be made up is read back as it was: a text spells only the instants of certain years,
an object comes back sorted by name, and outputs or a state that are null are taken for missing.
`Record.Writable` says what a record has to be like.

Main statements: `Lock.ofText?_render` and `Record.ofText?_render`.
-/

namespace Groundwork

/-! ### Locks -/

theorem Status.readTime?_timeValue {t : Instant} (h : t.Writable) :
    Status.readTime? (Status.timeValue t) = some t := by
  simp [Status.readTime?, Status.timeValue, Value.str?, Instant.parse?_render h]

theorem Status.timeValue_ne_null (t : Instant) : Status.timeValue t ≠ .null := fun h => by cases h

theorem Lock.ofValue?_toValue {l : Lock} (hacquired : l.acquired.Writable) (hexpires : l.expires.Writable) :
    Lock.ofValue? l.toValue = some l := by
  have hknown : ["lock_id", "key", "holder", "operation", "acquired_at", "expires_at"].Nodup := by decide
  rw [Lock.ofValue?, Lock.toValue, parts_eq_some hknown (among_of_keys_eq rfl)]
  simp [Decode.needed, Decode.text, Value.str?, List.lookup_cons, StateKey.ofValue?_toValue,
    Status.readTime?_timeValue hacquired, Status.readTime?_timeValue hexpires]

/-! ### Nodes -/

namespace Status

/-- The times of a status. -/
def times (s : Status) : List Instant := s.startTime.toList ++ s.endTime.toList ++ s.lastUpdated.toList

theorem ofName?_name (p : Phase) : Phase.ofName? p.name = some p := by cases p <;> decide

/-- **A status is read back.** -/
theorem ofValue?_toValue {s : Status} (h : ∀ t ∈ s.times, t.Writable) : ofValue? s.toValue = some s := by
  obtain ⟨phase, message, startTime, endTime, lastUpdated⟩ := s
  simp only [times, List.mem_append, Option.mem_toList] at h
  have hphaseAmong : Among ["state"] [("state", Value.str phase.name)] := among_of_keys_eq rfl
  have hamong := (((hphaseAmong.append
    (among_optional "message" .str message)).append (among_optional "startTime" timeValue startTime)).append
    (among_optional "endTime" timeValue endTime)).append (among_optional "lastUpdated" timeValue lastUpdated)
  have hknown : ["state", "message", "startTime", "endTime", "lastUpdated"].Nodup := by decide
  have hphase : Decode.variant Phase.ofName? (.str phase.name) = some phase := ofName?_name phase
  rw [ofValue?, toValue, parts_eq_some hknown hamong]
  simp only [Option.bind_eq_bind, Option.bind_some]
  rw [optional_text (o := message) (by simp [List.lookup_append, lookup_optional, List.lookup_cons]),
    optional_eq_some (o := startTime) (by simp [List.lookup_append, lookup_optional, List.lookup_cons]) timeValue_ne_null
      fun i hi => readTime?_timeValue (h i (.inl (.inl hi))),
    optional_eq_some (o := endTime) (by simp [List.lookup_append, lookup_optional, List.lookup_cons]) timeValue_ne_null
      fun i hi => readTime?_timeValue (h i (.inl (.inr hi))),
    optional_eq_some (o := lastUpdated) (by simp [List.lookup_append, lookup_optional, List.lookup_cons]) timeValue_ne_null
      fun i hi => readTime?_timeValue (h i (.inr hi))]
  simp [Decode.needed, hphase]

end Status

namespace InfraNode

/-- The node that is read of a written one: objects are sorted, and outputs or a state that are null are missing. -/
def asRead (n : InfraNode) : InfraNode :=
  { n with
    inputs := n.inputs.sorted
    outputs := (n.outputs.filter (!·.isNull)).map Value.sorted
    state := (n.state.filter (!·.isNull)).map Value.sorted }

theorem wholeOption_of_lookup {t : Table Value} {k : String} {o : Option Value} (hlookup : t.lookup k = o) :
    Decode.wholeOption t k = o.filter (!·.isNull) := by
  unfold Decode.wholeOption
  rw [hlookup]
  cases o with
  | none => rfl
  | some v => cases v <;> rfl

/-- **A node is read back**, if its times are. -/
theorem ofValue?_toValue {n : InfraNode} (h : ∀ t ∈ n.status.times, t.Writable) :
    ofValue? n.toValue = some n.asRead := by
  obtain ⟨⟨resourceType, name, component, environment⟩, color, appNode, image, plugin, inputs, action, status,
    outputs, state⟩ := n
  have hcolor : Decode.variant Color.ofName? (.str color.name) = some color := by cases color <;> decide
  have haction : Decode.variant Action.ofName? (.str action.name) = some action := by cases action <;> decide
  have hplugin : Decode.variant PluginKind.ofName? (.str plugin.name) = some plugin := by cases plugin <;> decide
  have hkey : Among ["type", "name"] [("type", Value.str resourceType), ("name", Value.str name)] :=
    among_of_keys_eq rfl
  have hcolorAmong : Among ["color"] [("color", Value.str color.name)] := among_of_keys_eq rfl
  have hfields : Among ["image", "plugin", "inputs", "action", "status"]
      [("image", Value.str image), ("plugin", .str plugin.name), ("inputs", inputs), ("action", .str action.name),
        ("status", status.toValue)] := among_of_keys_eq rfl
  have hamong := ((((((hkey.append (among_optional "component" .str component)).append
    (among_optional "environment" .str environment)).append hcolorAmong).append
    (among_optional "appNodeId" .str appNode)).append hfields).append
    (among_optional "outputs" (fun v => v) outputs)).append (among_optional "state" (fun v => v) state)
  have hknown : ["type", "name", "component", "environment", "color", "appNodeId", "image", "plugin", "inputs",
    "action", "status", "outputs", "state"].Nodup := by decide
  rw [ofValue?, toValue, Key.toFields, Decode.fields, parts_eq_some hknown hamong]
  simp only [Option.bind_eq_bind, Option.bind_some, Key.ofFields?]
  rw [optional_text (o := component) (by simp [List.lookup_append, lookup_optional, List.lookup_cons]),
    optional_text (o := environment) (by simp [List.lookup_append, lookup_optional, List.lookup_cons]),
    optional_text (o := appNode) (by simp [List.lookup_append, lookup_optional, List.lookup_cons]),
    wholeOption_of_lookup (o := outputs) (by simp [List.lookup_append, lookup_optional, List.lookup_cons]),
    wholeOption_of_lookup (o := state) (by simp [List.lookup_append, lookup_optional, List.lookup_cons])]
  simp [Decode.needed, Decode.defaulted, Decode.whole, Decode.text, Value.str?, List.lookup_append, lookup_optional,
    List.lookup_cons, hcolor, haction, hplugin, Status.ofValue?_toValue h, asRead]

/-- Whether a node is one that a document spells. -/
structure Writable (n : InfraNode) : Prop where
  inputs : n.inputs.Tidy
  outputs : ∀ v ∈ n.outputs, v.Tidy ∧ v ≠ .null
  state : ∀ v ∈ n.state, v.Tidy ∧ v ≠ .null
  times : ∀ t ∈ n.status.times, t.Writable

theorem part_eq {o : Option Value} (h : ∀ v ∈ o, v.Tidy ∧ v ≠ .null) : (o.filter (!·.isNull)).map Value.sorted = o := by
  cases o with
  | none => rfl
  | some v =>
    obtain ⟨htidy, hnull⟩ := h v rfl
    cases v with
    | null => exact absurd rfl hnull
    | _ => exact congrArg some htidy

theorem Writable.asRead_eq {n : InfraNode} (h : n.Writable) : n.asRead = n := by
  rw [asRead, h.inputs.sorted_eq, part_eq h.outputs, part_eq h.state]

end InfraNode

/-! ### Graphs -/

namespace Graph

variable {N : Type} [Identified N]

/-- Distinct new edges between different ids are appended. -/
theorem edges_insertEdges {l : List Edge} {g : Graph N} (hl : l.Nodup) (hproper : ∀ e ∈ l, e.isLoop = false)
    (hg : ∀ e ∈ l, e ∉ g.edges) : (g.insertEdges l).edges = g.edges ++ l := by
  induction l generalizing g with
  | nil => exact (List.append_nil _).symm
  | cons e l ih =>
    obtain ⟨he, hl⟩ := List.nodup_cons.1 hl
    have hstep : (g.insertEdge e).edges = g.edges ++ [e] := by
      have hloop := hproper e List.mem_cons_self
      have hnew := hg e List.mem_cons_self
      simp [insertEdge, addEdge, hloop, hnew]
    change ((g.insertEdge e).insertEdges l).edges = _
    rw [ih hl (fun f hf => hproper f (List.mem_cons_of_mem e hf)), hstep, List.append_assoc]
    · rfl
    · intro f hf hmem
      rcases List.mem_append.1 (hstep ▸ hmem) with hmem | hmem
      · exact hg f (List.mem_cons_of_mem e hf) hmem
      · exact he (List.mem_singleton.1 hmem ▸ hf)

/-- A graph is the graph of its nodes and edges. -/
theorem ofParts_parts (g : Graph N) : ofParts g.nodes g.edges = g := by
  refine ext ?_ ?_
  · rw [ofParts, nodes_insertEdges, nodes_insertNodes g.ids_nodup fun _ _ => List.not_mem_nil]
    rfl
  · rw [ofParts, edges_insertEdges g.edges_nodup g.edges_proper fun _ _ => by simp [empty], edges_insertNodes]
    rfl

theorem ofValue?_edge (e : Edge) : Edge.ofValue? e.toValue = some e := by
  have hknown : ["from", "to"].Nodup := by decide
  rw [Edge.ofValue?, Edge.toValue, parts_eq_some hknown (among_of_keys_eq rfl)]
  simp [Decode.needed, Decode.text, Value.str?, List.lookup_cons]

/-- **A graph is read back** as its nodes are. -/
theorem ofValue?_toValue {decode : Value → Option N} {encode : N → Value} {f : N → N}
    (hid : ∀ n, Identified.id (f n) = Identified.id n) {g : Graph N}
    (h : ∀ n ∈ g.nodes, decode (encode n) = some (f n)) :
    ofValue? decode (toValue encode g) = some (g.mapNodes f hid) := by
  have hknown : ["nodes", "edges"].Nodup := by decide
  have hnodes : (g.nodes.map encode).mapM decode = some (g.nodes.map f) := mapM_map_of_eq_some h
  have hparts : ofParts (g.nodes.map f) g.edges = g.mapNodes f hid := ofParts_parts (g.mapNodes f hid)
  rw [ofValue?, toValue, parts_eq_some hknown (among_of_keys_eq rfl)]
  simp [Decode.defaulted, Decode.list, List.lookup_cons, hnodes,
    mapM_map_of_some fun e (_ : e ∈ g.edges) => ofValue?_edge e, hparts]

end Graph

/-! ### Records -/

/-- An entry of the history is read back. -/
theorem HistoryEntry.ofValue?_toValue {e : HistoryEntry} (h : e.time.Writable) :
    HistoryEntry.ofValue? e.toValue = some e := by
  obtain ⟨time, operation, nodes, success, error⟩ := e
  have hknown : ["timestamp", "operation", "nodes", "success", "error"].Nodup := by decide
  have hoperation : Decode.variant Operation.ofName? (.str operation.name) = some operation := by
    cases operation <;> decide
  have hnodes : Decode.list Value.str? (.ofStrings nodes) = some nodes := mapM_map_of_some fun _ _ => rfl
  rw [HistoryEntry.ofValue?, HistoryEntry.toValue, parts_eq_some hknown (among_of_keys_eq rfl)]
  cases error <;>
    simp [Decode.needed, Decode.optional, Decode.text, Decode.truth, Value.str?, Value.ofOption, List.lookup_cons, Status.readTime?_timeValue h, hoperation, hnodes]

namespace Record

/-- The times of a record. -/
def times (r : Record) : List Instant :=
  r.lastUpdated :: r.history.map (·.time) ++ r.graph.nodes.flatMap (·.status.times)

/-- The record that is read of a written one. -/
def asRead (r : Record) : Record := { r with graph := r.graph.mapNodes InfraNode.asRead fun _ => rfl }

/-- **A record is read back from its document**, if its times are. -/
theorem ofValue?_toValue {r : Record} (h : ∀ t ∈ r.times, t.Writable) : ofValue? r.toValue = some r.asRead := by
  simp only [times, List.cons_append, List.mem_cons, List.mem_append, List.mem_flatMap, List.mem_map] at h
  have hknown : ["version", "key", "graph", "last_updated", "history"].Nodup := by decide
  have hgraph : Infrastructure.ofValue? (Infrastructure.toValue r.graph) = some r.asRead.graph :=
    Graph.ofValue?_toValue (f := InfraNode.asRead) (fun _ => rfl) fun n hn =>
      InfraNode.ofValue?_toValue fun t ht => h t (.inr (.inr ⟨n, hn, ht⟩))
  have hhistory : (r.history.map HistoryEntry.toValue).mapM HistoryEntry.ofValue? = some r.history :=
    mapM_map_of_some fun e he => HistoryEntry.ofValue?_toValue (h e.time (.inr (.inl ⟨e, he, rfl⟩)))
  have hupdated := Status.readTime?_timeValue (h r.lastUpdated (.inl rfl))
  rw [ofValue?, toValue, parts_eq_some hknown (among_of_keys_eq rfl)]
  simp [Decode.needed, Decode.defaulted, Decode.list, Decode.text, Value.str?, List.lookup_cons,
    StateKey.ofValue?_toValue, hupdated, hgraph, hhistory, asRead]

/-- Whether a record is one that a text spells. -/
structure Writable (r : Record) : Prop where
  nodes : ∀ n ∈ r.graph.nodes, n.Writable
  history : ∀ e ∈ r.history, e.time.Writable
  lastUpdated : r.lastUpdated.Writable
  numbers : ∀ n ∈ r.toValue.numbers, Json.ReadsBack n
  depth : r.toValue.height ≤ Json.maxDepth

theorem Writable.asRead_eq {r : Record} (h : r.Writable) : r.asRead = r := by
  have hgraph : r.graph.mapNodes InfraNode.asRead (fun _ => rfl) = r.graph :=
    Graph.ext (map_eq_self_iff.2 fun n hn => (h.nodes n hn).asRead_eq) rfl
  rw [asRead, hgraph]

theorem Writable.times {r : Record} (h : r.Writable) : ∀ t ∈ r.times, t.Writable := by
  intro t ht
  simp only [Record.times, List.cons_append, List.mem_cons, List.mem_append, List.mem_flatMap, List.mem_map] at ht
  rcases ht with rfl | ⟨e, he, rfl⟩ | ⟨n, hn, ht⟩
  · exact h.lastUpdated
  · exact h.history e he
  · exact (h.nodes n hn).times t ht

/-- **A record is read back from its text.** -/
theorem ofText?_render {r : Record} (h : r.Writable) : ofText? r.render = some r := by
  rw [ofText?, render, Json.document_pretty h.numbers h.depth, Option.bind_some, ofValue?_toValue h.times,
    h.asRead_eq]

end Record

/-- **A lock is read back from its text.** -/
theorem Lock.ofText?_render {l : Lock} (hacquired : l.acquired.Writable) (hexpires : l.expires.Writable) :
    Lock.ofText? l.render = some l := by
  have hnumbers : l.toValue.numbers = [] := by
    obtain ⟨id, ⟨datacenter, environment⟩, holder, operation, acquired, expires⟩ := l
    cases environment <;> rfl
  have hdepth : l.toValue.height ≤ Json.maxDepth := by
    obtain ⟨id, ⟨datacenter, environment⟩, holder, operation, acquired, expires⟩ := l
    cases environment <;>
      simp [Lock.toValue, StateKey.toValue, Encode.optional, Status.timeValue, Value.height,
        Value.height.fieldsHeight, Json.maxDepth]
  rw [Lock.ofText?, Lock.render, Json.document_pretty (by rw [hnumbers]; simp) hdepth]
  exact Lock.ofValue?_toValue hacquired hexpires

end Groundwork
