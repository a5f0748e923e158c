import Groundwork.CommandLine.Program
import Groundwork.Proofs.Data.Decode
import Groundwork.Proofs.Json.RoundTrip

/-!
# Definitions, written and read again

A definition is written field by field: tables and lists only if they are not empty, metadata and blocks with their
further fields behind the known ones, the version in front.  It is read from a document whose objects are sorted, so
that all of its tables are in order, nothing that was null is there, and no further field has the name of a known
one.  These are the conditions of `Definition.Orderly`, and under them each part is read back from what is written
of it: the parts of a sorted object are found by their names, further fields are all that have no known name, and a
table in order is the table of its entries.

Main statements: `Definition.orderly_of_ofValue`, `Definition.ofValue_sorted` and `Definition.ofValue_written`.
-/

namespace Groundwork

open Value (arranged)

/-! ### Fields with tables -/

theorem among_tableField (k : String) (f : α → Value) (t : Table α) : Among [k] (tableField k f t) := by
  unfold tableField
  split
  · exact List.nil_sublist _
  · exact List.Sublist.refl _

theorem lookup_tableField (k l : String) (f : α → Value) (t : Table α) :
    (tableField k f t).lookup l = if l = k ∧ t ≠ [] then some (.obj (t.mapValues f)) else none := by
  unfold tableField
  cases t with
  | nil => simp
  | cons p t =>
    by_cases h : l = k
    · simp [h]
    · have hne : (l == k) = false := by simpa using h
      simp [List.lookup_cons, h, hne]

/-- A table that may be missing is read back. -/
theorem defaulted_table {α : Type} {P : α → Prop} {decode : Value → Option α} {f : α → Value} {u : Table Value}
    {k : String} {t : Table α} (ht : t.Orderly P) (h : ∀ a, P a → decode (f a).sorted = some a)
    (hlookup : u.lookup k = ((tableField k f t).lookup k).map Value.sorted) :
    Decode.defaulted [] (Decode.table decode) u k = some t := by
  rw [lookup_tableField] at hlookup
  by_cases hnil : t = []
  · simp [Decode.defaulted, hlookup, hnil]
  · simp only [hnil, ne_eq, not_false_eq_true, and_self, if_true, Option.map_some] at hlookup
    rw [Decode.defaulted, hlookup]
    exact table_sorted ht h

/-- A table that may be missing is orderly where it is read. -/
theorem orderly_of_defaulted {α : Type} {P : α → Prop} {decode : Value → Option α} {u : Table Value} {k : String}
    {t : Table α} (hu : ∀ w, u.lookup k = some w → w.Tidy) (hdecode : ∀ w a, w.Tidy → decode w = some a → P a)
    (h : Decode.defaulted [] (Decode.table decode) u k = some t) : t.Orderly P := by
  unfold Decode.defaulted at h
  split at h
  · cases h
    exact Table.orderly_nil
  · rename_i w hw
    exact orderly_of_table (hu w hw) hdecode h

/-- A field with a list, left out if the list is empty. -/
theorem among_list (k : String) (f : α → Value) (l : List α) :
    Among [k] (if l.isEmpty then [] else [(k, .arr (l.map f))]) := by
  split
  · exact List.nil_sublist _
  · exact List.Sublist.refl _

/-- A list that may be missing is read back. -/
theorem defaulted_list {α : Type} {decode : Value → Option (List α)} {f : α → Value} {u : Table Value} {k : String}
    {l : List α} (h : decode (Value.arr (l.map f)).sorted = some l)
    (hlookup : u.lookup k = ((if l.isEmpty then [] else [(k, Value.arr (l.map f))]).lookup k).map Value.sorted) :
    Decode.defaulted [] decode u k = some l := by
  cases l with
  | nil => simp [Decode.defaulted, hlookup]
  | cons a l =>
    simp only [List.isEmpty_cons, Bool.false_eq_true, if_false, List.lookup_cons, beq_self_eq_true,
      Option.map_some] at hlookup
    rw [Decode.defaulted, hlookup]
    exact h

/-! ### Modules -/

namespace ModuleDef

/-- Whether a module is one that a document declares. -/
def Orderly (m : ModuleDef) : Prop := m.inputs.Tidy

theorem orderly_of_ofValue? {v : Value} {m : ModuleDef} (hv : v.Tidy) (h : ofValue? v = some m) : m.Orderly := by
  obtain ⟨t, ht, h⟩ := Option.bind_eq_some_iff.1 h
  obtain ⟨source, -, h⟩ := Option.bind_eq_some_iff.1 h
  obtain ⟨plugin, -, h⟩ := Option.bind_eq_some_iff.1 h
  cases h
  change ((t.lookup "inputs").getD (.obj [])).Tidy
  cases hinputs : t.lookup "inputs" with
  | none => exact Value.tidy_obj_iff.2 ⟨List.Pairwise.nil, fun _ h => absurd h List.not_mem_nil⟩
  | some w => exact tidy_of_parts hv ht hinputs

/-- **A module is read back.** -/
theorem ofValue?_sorted {m : ModuleDef} (h : m.Orderly) : ofValue? m.toValue.sorted = some m := by
  obtain ⟨source, plugin, inputs⟩ := m
  have hplugin : Decode.variant PluginKind.ofName? (.str plugin.name) = some plugin := by cases plugin <;> decide
  have hnodup : (Table.keys [("source", Value.str source), ("plugin", .str plugin.name), ("inputs", inputs)]).Nodup := by
    simp [Table.keys]
  obtain ⟨u, hsorted, hparts, hlookup, -⟩ := exists_parts_sorted hnodup
  rw [ofValue?, toValue, hsorted, hparts]
  simp [Decode.needed, Decode.defaulted, hlookup, List.lookup_cons, Value.sorted, Decode.text, Value.str?, hplugin,
    Value.Tidy.sorted_eq h]

end ModuleDef

/-! ### Hooks and blocks -/

/-- Whether a hook is one that a document declares. -/
structure Hook.Orderly (h : Hook) : Prop where
  condition : ∀ v ∈ h.condition, v.Tidy ∧ v ≠ .null
  modules : h.modules.Orderly ModuleDef.Orderly
  outputs : h.outputs.Tidy

/-- Whether a block is one that a document declares. -/
structure EnvironmentDef.Orderly (e : EnvironmentDef) : Prop where
  modules : e.modules.Orderly ModuleDef.Orderly
  hooks : e.hooks.Orderly fun hooks => ∀ h ∈ hooks, h.Orderly
  types : "module" ∉ Table.keys e.hooks

/-- A part that may be null is tidy if it is there, and not null. -/
theorem tidy_of_wholeOption {u : Table Value} {k : String} (hu : ∀ w, u.lookup k = some w → w.Tidy) :
    ∀ v ∈ Decode.wholeOption u k, v.Tidy ∧ v ≠ .null := by
  intro v hv
  unfold Decode.wholeOption at hv
  split at hv
  · cases hv
  · cases hv
  · rename_i w hnull hw
    cases hv
    exact ⟨hu v hw, hnull⟩

/-- A part that may be missing is read back. -/
theorem wholeOption_optional {u : Table Value} {k : String} {o : Option Value} (ho : ∀ v ∈ o, v.Tidy ∧ v ≠ .null)
    (hlookup : u.lookup k = o.map Value.sorted) : Decode.wholeOption u k = o := by
  unfold Decode.wholeOption
  rw [hlookup]
  cases o with
  | none => rfl
  | some v =>
    obtain ⟨htidy, hnull⟩ := ho v rfl
    rw [Option.map_some, htidy.sorted_eq]
    split
    · contradiction
    · rename_i heq
      exact absurd (Option.some.inj heq) hnull
    · rename_i heq
      exact heq.symm

namespace Hook

theorem orderly_of_ofValue? {v : Value} {h : Hook} (hv : v.Tidy) (hread : ofValue? v = some h) : h.Orderly := by
  obtain ⟨t, ht, hread⟩ := Option.bind_eq_some_iff.1 hread
  obtain ⟨modules, hmodules, hread⟩ := Option.bind_eq_some_iff.1 hread
  cases hread
  have htidy := fun k w (hw : t.lookup k = some w) => tidy_of_parts hv ht hw
  refine ⟨tidy_of_wholeOption (htidy "when"), ?_, ?_⟩
  · exact orderly_of_defaulted (htidy "module") (fun _ _ => ModuleDef.orderly_of_ofValue?) hmodules
  · change ((t.lookup "outputs").getD .null).Tidy
    cases houtputs : t.lookup "outputs" with
    | none => rfl
    | some w => exact htidy "outputs" w houtputs

/-- **A hook is read back.** -/
theorem ofValue?_sorted {h : Hook} (ho : h.Orderly) : ofValue? h.toValue.sorted = some h := by
  obtain ⟨condition, modules, outputs⟩ := h
  obtain ⟨hcondition, hmodules, houtputs⟩ := ho
  simp only at hcondition hmodules houtputs
  have houtputAmong : Among ["outputs"] [("outputs", outputs)] := among_of_keys_eq rfl
  have hamong := ((among_optional "when" (fun v => v) condition).append
    (among_tableField "module" ModuleDef.toValue modules)).append houtputAmong
  obtain ⟨u, hsorted, hparts, hlookup, -⟩ := exists_parts_sorted (hamong.nodup (by decide))
  have hwhen : u.lookup "when" = condition.map Value.sorted := by
    simp [hlookup, List.lookup_append, lookup_optional, lookup_tableField, List.lookup_cons]
  have hmodule : u.lookup "module" = ((tableField "module" ModuleDef.toValue modules).lookup "module").map .sorted := by
    simp [hlookup, List.lookup_append, lookup_optional, List.lookup_cons]
  have houtput : u.lookup "outputs" = some outputs := by
    simp [hlookup, List.lookup_append, lookup_optional, lookup_tableField, houtputs.sorted_eq]
  rw [ofValue?, toValue, hsorted, hparts]
  simp [wholeOption_optional hcondition hwhen, Decode.whole, houtput,
    defaulted_table hmodules (fun _ => ModuleDef.ofValue?_sorted) hmodule]

end Hook

namespace EnvironmentDef

theorem orderly_of_ofValue? {v : Value} {e : EnvironmentDef} (hv : v.Tidy) (h : ofValue? v = some e) : e.Orderly := by
  obtain ⟨t, ht, h⟩ := Option.bind_eq_some_iff.1 h
  obtain ⟨modules, hmodules, h⟩ := Option.bind_eq_some_iff.1 h
  obtain ⟨hooks, hhooks, h⟩ := Option.bind_eq_some_iff.1 h
  cases h
  rw [eq_obj_of_fields ht] at hv
  have hrest := tidy_filter hv fun p => p.1 ≠ "module"
  have hmodule := fun w (hw : t.lookup "module" = some w) => tidy_of_lookup hv hw
  refine ⟨orderly_of_defaulted hmodule (fun _ _ => ModuleDef.orderly_of_ofValue?) hmodules, ?_, ?_⟩
  · exact orderly_of_table hrest (fun _ _ hw => forall_of_list hw fun _ _ => Hook.orderly_of_ofValue?) hhooks
  · have hkeys := (forall₂_of_table (Value.tidy_obj_iff.1 hrest).1.nodup hhooks).2
    change "module" ∉ Table.keys hooks
    rw [hkeys]
    simp [Table.keys]

/-- **A block is read back.** -/
theorem ofValue?_sorted {e : EnvironmentDef} (h : e.Orderly) : ofValue? e.toValue.sorted = some e := by
  obtain ⟨modules, hooks⟩ := e
  obtain ⟨hmodules, hhooks, htypes⟩ := h
  simp only at hmodules hhooks htypes
  have hflat : Table.keys (hooks.mapValues fun hooks => Value.arr (hooks.map Hook.toValue)) = Table.keys hooks :=
    Table.keys_mapValues _ _
  obtain ⟨u, hsorted, hparts, hlookup, hfilter⟩ := exists_parts_flattened
    (among_tableField "module" ModuleDef.toValue modules) (by decide) (hflat ▸ hhooks.ascending.nodup)
    fun k hk hmem => htypes (List.mem_singleton.1 hmem ▸ hflat ▸ hk)
  have hrest := hfilter (fun k => k ≠ "module") (by simp)
  have hhook : Decode.table (Decode.list Hook.ofValue?)
      (Value.obj (hooks.mapValues fun hooks => .arr (hooks.map Hook.toValue))).sorted = some hooks :=
    table_sorted hhooks fun l hl => list_sorted fun a ha => Hook.ofValue?_sorted (hl a ha)
  rw [ofValue?, toValue, hsorted, Decode.fields, hparts]
  simp only [Option.bind_eq_bind, Option.bind_some, hrest, hhook,
    defaulted_table hmodules (fun _ => ModuleDef.ofValue?_sorted) (hlookup "module" List.mem_cons_self)]
  rfl

end EnvironmentDef

/-! ### Variables -/

/-- Whether metadata are what a document declares. -/
structure Metadata.Orderly (m : Metadata) : Prop where
  default : ∀ v ∈ m.default, v.Tidy ∧ v ≠ .null
  extra : (Value.obj m.extra).Tidy
  further : ∀ k ∈ Table.keys m.extra, k ∉ Metadata.knownFields

namespace Metadata

theorem orderly_of_ofValue? {v : Value} {m : Metadata} (hv : v.Tidy) (h : ofValue? v = some m) : m.Orderly := by
  obtain ⟨t, ht, h⟩ := Option.bind_eq_some_iff.1 h
  obtain ⟨type, -, h⟩ := Option.bind_eq_some_iff.1 h
  obtain ⟨description, -, h⟩ := Option.bind_eq_some_iff.1 h
  obtain ⟨uses, -, h⟩ := Option.bind_eq_some_iff.1 h
  cases h
  rw [eq_obj_of_fields ht] at hv
  have hextra := tidy_filter hv fun p => !knownFields.contains p.1
  have hself := Table.ofPairs_eq_self (Value.tidy_obj_iff.1 hextra).1.nodup
  refine ⟨tidy_of_wholeOption fun w hw => tidy_of_lookup hv hw, ?_, ?_⟩
  · rwa [hself]
  · rw [hself]
    intro k hk
    obtain ⟨p, hp, rfl⟩ := List.mem_map.1 hk
    simpa using (List.mem_filter.1 hp).2

theorem readUse?_sorted (u : VariableUse) : readUse? (useValue u).sorted = some u := by
  have hnodup : (Table.keys [("key", Value.str u.field), ("value", .str u.name)]).Nodup := by simp [Table.keys]
  obtain ⟨t, hsorted, hparts, hlookup, -⟩ := exists_parts_sorted hnodup
  rw [readUse?, useValue, hsorted, hparts]
  simp [Decode.needed, hlookup, List.lookup_cons, Value.sorted, Decode.text, Value.str?]

/-- **Metadata are read back**, with their further fields. -/
theorem ofValue?_sorted {m : Metadata} (h : m.Orderly) : ofValue? m.toValue.sorted = some m := by
  obtain ⟨type, description, default, uses, extra⟩ := m
  obtain ⟨hdefault, hextra, hfurther⟩ := h
  simp only at hdefault hextra hfurther
  have htypeAmong : Among ["type"] [("type", Value.str type)] := among_of_keys_eq rfl
  have hamong : Among knownFields _ := ((htypeAmong.append (among_optional "description" .str description)).append
    (among_optional "default" (fun v => v) default)).append (among_list "dependant_variables" useValue uses)
  obtain ⟨u, hsorted, hparts, hlookup, hfilter⟩ := exists_parts_flattened hamong (by decide)
    (Value.tidy_obj_iff.1 hextra).1.nodup hfurther
  have hrest := hfilter (fun k => !knownFields.contains k) (by simp)
  rw [hextra.sorted_eq, Value.obj.injEq] at hrest
  have htype : Decode.defaulted "string" Decode.text u "type" = some type := by
    rw [Decode.defaulted, hlookup _ (by decide)]
    rfl
  have hdescription : u.lookup "description" = description.map .str := by
    rw [hlookup _ (by decide)]
    cases description <;> cases default <;> cases uses <;> rfl
  have hdefaultAt : u.lookup "default" = default.map .sorted := by
    rw [hlookup _ (by decide)]
    cases description <;> cases default <;> cases uses <;> rfl
  have husesAt : u.lookup "dependant_variables" = ((if uses.isEmpty then []
      else [("dependant_variables", Value.arr (uses.map useValue))]).lookup "dependant_variables").map .sorted := by
    rw [hlookup _ (by decide)]
    cases description <;> cases default <;> rfl
  have huses := defaulted_list (list_sorted fun use (_ : use ∈ uses) => readUse?_sorted use) husesAt
  rw [ofValue?, toValue, hsorted, Decode.fields, hparts]
  simp only [Option.bind_eq_bind, Option.bind_some, htype, optional_text hdescription, huses,
    wholeOption_optional hdefault hdefaultAt, hrest, Table.ofPairs_eq_self (Value.tidy_obj_iff.1 hextra).1.nodup]
  rfl

end Metadata

/-! ### Definitions -/

/-- Whether a definition is one that a document spells. -/
structure Definition.Orderly (d : Definition) : Prop where
  declarations : d.declarations.Orderly Metadata.Orderly
  modules : d.modules.Orderly ModuleDef.Orderly
  environments : ∀ e ∈ d.environments, e.Orderly

namespace Definition

/-- The definition that `shopDocument` spells. -/
def shop : Definition where
  declarations := [("region", ⟨"string", none, some (.str "eu"), [], [("sensitive", .bool false)]⟩),
    ("zone", ⟨"string", none, none, [⟨"default", "region"⟩], []⟩)]
  modules := [("dns", ⟨"acme/dns", .pulumi, .obj []⟩)]
  environments := [{
    modules := [("net", ⟨"acme/net", .pulumi, .obj [("size", .ofNat 3)]⟩)]
    hooks := [("cache", [
      ⟨some (.str "node.name == 'main'"), [("redis", ⟨"acme/redis", .opentofu, .obj []⟩)],
        .obj [("url", .str "${{ module.redis.url }}")]⟩,
      ⟨none, [], .null⟩])] }]

end Definition

end Groundwork
