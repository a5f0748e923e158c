import Mathlib.Data.List.Forall2
import Groundwork.Data.Decode
import Groundwork.Proofs.Data.Sorted

/-!
# Parts of documents, written and read

No name stands twice in an object that is written, so that every part of it is found under its name, also after
the object has been sorted.  `Value.arranged` are the fields of a sorted object.

What is read from a tidy document is tidy, part by part, and a table that is read has its names in order.
`Table.Orderly` says so of a table, with what holds of each entry; an orderly table is read back.

Main statements: `exists_parts_sorted`, `orderly_of_table` and `table_sorted`.
-/

namespace Groundwork

/-! ### Parts of objects -/

/-- Whether the names of fields stand in this order, some of them perhaps missing. -/
def Among (names : List String) (fields : Table Value) : Prop := (Table.keys fields).Sublist names

theorem among_of_keys_eq {names : List String} {fields : Table Value} (h : Table.keys fields = names) :
    Among names fields := h ▸ List.Sublist.refl _

theorem among_optional (k : String) (f : α → Value) (o : Option α) : Among [k] (Encode.optional k f o) := by
  cases o with
  | none => exact List.nil_sublist _
  | some a => exact List.Sublist.refl _

theorem Among.append {names names' : List String} {s t : Table Value} (hs : Among names s) (ht : Among names' t) :
    Among (names ++ names') (s ++ t) := by
  rw [Among, Table.keys, List.map_append]
  exact List.Sublist.append hs ht

/-- An object in which no name stands twice has parts. -/
theorem parts_of_nodup {names : List String} {fields : Table Value} (h : (Table.keys fields).Nodup) :
    Decode.parts names (.obj fields) = some fields := by
  have hnodup : ((Table.keys fields).filter names.contains).Nodup := h.filter _
  simp [Decode.parts, eraseDups_of_nodup hnodup]

theorem parts_eq_some {names known : List String} {fields : Table Value} (hknown : known.Nodup)
    (h : Among known fields) : Decode.parts names (.obj fields) = some fields :=
  parts_of_nodup (h.nodup hknown)

theorem lookup_optional (k l : String) (f : α → Value) (o : Option α) :
    (Encode.optional k f o).lookup l = if l = k then o.map f else none := by
  cases o with
  | none => simp [Encode.optional]
  | some a =>
    by_cases h : l = k
    · simp [Encode.optional, h]
    · have hne : (l == k) = false := by simpa using h
      simp [Encode.optional, List.lookup_cons, h, hne]

/-- An optional part is read back if it is as it stands, and is not taken for a missing one. -/
theorem optional_eq_some {decode : Value → Option α} {f : α → Value} {t : Table Value} {k : String} {o : Option α}
    (hlookup : t.lookup k = o.map f) (hnull : ∀ a, f a ≠ .null) (h : ∀ a ∈ o, decode (f a) = some a) :
    Decode.optional decode t k = some o := by
  unfold Decode.optional
  rw [hlookup]
  cases o with
  | none => rfl
  | some a =>
    have ha := h a rfl
    rw [Option.map_some]
    split
    · contradiction
    · rename_i heq
      exact absurd (Option.some.inj heq) (hnull a)
    · rename_i heq
      rw [← Option.some.inj heq, ha]
      rfl

theorem optional_text {t : Table Value} {k : String} {o : Option String} (hlookup : t.lookup k = o.map .str) :
    Decode.optional Decode.text t k = some o :=
  optional_eq_some hlookup nofun fun _ _ => rfl

/-! ### Lists -/

section Lists

variable {α β γ : Type}

theorem mapM_map_of_eq_some {f : β → Option γ} {g : α → β} {e : α → γ} {l : List α}
    (h : ∀ a ∈ l, f (g a) = some (e a)) : (l.map g).mapM f = some (l.map e) := by
  induction l with
  | nil => rfl
  | cons a l ih =>
    rw [List.map_cons, List.mapM_cons, h a List.mem_cons_self, ih fun b hb => h b (List.mem_cons_of_mem a hb)]
    rfl

theorem mapM_map_of_some {f : β → Option α} {g : α → β} {l : List α}
    (h : ∀ a ∈ l, f (g a) = some a) : (l.map g).mapM f = some l := by
  rw [mapM_map_of_eq_some (e := id) h, List.map_id]

/-- What is read of a list is read item by item. -/
theorem forall₂_of_mapM_eq_some {f : α → Option β} {l : List α} {bs : List β} (h : l.mapM f = some bs) :
    List.Forall₂ (fun a b => f a = some b) l bs := by
  induction l generalizing bs with
  | nil =>
    cases h
    exact .nil
  | cons a l ih =>
    rw [List.mapM_cons, Option.bind_eq_bind, Option.bind_eq_some_iff] at h
    obtain ⟨b, hb, h⟩ := h
    obtain ⟨bs', hbs, h⟩ := Option.bind_eq_some_iff.1 h
    cases h
    exact .cons hb (ih hbs)

theorem exists_of_forall₂_of_mem {R : α → β → Prop} {l : List α} {bs : List β} (h : List.Forall₂ R l bs) {b : β}
    (hb : b ∈ bs) : ∃ a ∈ l, R a b := by
  induction h with
  | nil => cases hb
  | @cons a b' l bs hab _ ih =>
    rcases List.mem_cons.1 hb with rfl | hb
    · exact ⟨a, List.mem_cons_self, hab⟩
    · obtain ⟨a', ha', hab'⟩ := ih hb
      exact ⟨a', List.mem_cons_of_mem a ha', hab'⟩

theorem list_sorted {decode : Value → Option α} {f : α → Value} {l : List α}
    (h : ∀ a ∈ l, decode (f a).sorted = some a) : Decode.list decode (Value.arr (l.map f)).sorted = some l := by
  rw [Value.sorted_arr, List.map_map]
  exact mapM_map_of_some h

/-- What holds of all that is read from tidy items holds of what is read from a tidy list. -/
theorem forall_of_list {decode : Value → Option α} {P : α → Prop} {v : Value} {l : List α} (hv : v.Tidy)
    (hdecode : ∀ w a, w.Tidy → decode w = some a → P a) (h : Decode.list decode v = some l) : ∀ a ∈ l, P a := by
  unfold Decode.list at h
  split at h
  · rename_i items
    intro a ha
    obtain ⟨w, hw, hread⟩ := exists_of_forall₂_of_mem (forall₂_of_mapM_eq_some h) ha
    exact hdecode w a (Value.tidy_arr_iff.1 hv w hw) hread
  · cases h

end Lists

/-! ### Objects that have been sorted -/

/-- The fields of a sorted object. -/
def Value.arranged (fields : Table Value) : Table Value := Table.sorted (Table.mapValues Value.sorted fields)

theorem Value.sorted_obj_eq (fields : Table Value) : (Value.obj fields).sorted = .obj (arranged fields) :=
  sorted_obj fields

section Arranged

variable {fields : Table Value}

theorem nodup_mapValues (h : (Table.keys fields).Nodup) : (Table.keys (fields.mapValues Value.sorted)).Nodup := by
  rwa [Table.keys_mapValues]

theorem nodup_arranged (fields : Table Value) : (Table.keys (Value.arranged fields)).Nodup :=
  (Table.ascending_sorted _).nodup

/-- **Each part of an object is found in the sorted object** under its name. -/
theorem lookup_arranged (h : (Table.keys fields).Nodup) (k : String) :
    (Value.arranged fields).lookup k = (fields.lookup k).map Value.sorted := by
  rw [Value.arranged, Table.lookup_sorted (nodup_mapValues h), Table.lookup_mapValues]

/-- Fields can be chosen by their names before or after sorting. -/
theorem filter_arranged (h : (Table.keys fields).Nodup) (p : String → Bool) :
    (Value.arranged fields).filter (fun q => p q.1) = Value.arranged (fields.filter fun q => p q.1) := by
  rw [Value.arranged, Table.filter_sorted (nodup_mapValues h), Table.mapValues, List.filter_map]
  rfl

/-- **An object in which no name stands twice has its parts also when it has been sorted.** -/
theorem exists_parts_sorted (h : (Table.keys fields).Nodup) :
    ∃ u, (Value.obj fields).sorted = .obj u ∧ (∀ names, Decode.parts names (.obj u) = some u) ∧
      (∀ k, u.lookup k = (fields.lookup k).map Value.sorted) ∧
      ∀ p : String → Bool, Value.obj (u.filter fun q => p q.1) = (Value.obj (fields.filter fun q => p q.1)).sorted :=
  ⟨_, Value.sorted_obj_eq fields, fun _ => parts_of_nodup (nodup_arranged fields), lookup_arranged h,
    fun p => by rw [filter_arranged h, Value.sorted_obj_eq]⟩

/-- **Further fields behind the known ones** are told from these by their names, also in the sorted object. -/
theorem exists_parts_flattened {known : List String} {rest : Table Value} (hfields : Among known fields)
    (hknown : known.Nodup) (hrest : (Table.keys rest).Nodup) (hapart : ∀ k ∈ Table.keys rest, k ∉ known) :
    ∃ u, (Value.obj (fields ++ rest)).sorted = .obj u ∧ (∀ names, Decode.parts names (.obj u) = some u) ∧
      (∀ k ∈ known, u.lookup k = (fields.lookup k).map Value.sorted) ∧
      ∀ p : String → Bool, (∀ k, p k = true ↔ k ∉ known) →
        Value.obj (u.filter fun q => p q.1) = (Value.obj rest).sorted := by
  have hnodup : (Table.keys (fields ++ rest)).Nodup := by
    rw [Table.keys, List.map_append]
    refine List.nodup_append.2 ⟨hfields.nodup hknown, hrest, fun k hk l hl heq => ?_⟩
    exact hapart l hl (heq ▸ hfields.subset hk)
  obtain ⟨u, hsorted, hparts, hlookup, hfilter⟩ := exists_parts_sorted hnodup
  refine ⟨u, hsorted, hparts, fun k hk => ?_, fun p hp => ?_⟩
  · have hnone : rest.lookup k = none := List.lookup_eq_none_iff.2 fun q hq => by
      have hne : q.1 ≠ k := fun heq => hapart q.1 (List.mem_map_of_mem hq) (heq ▸ hk)
      simpa using Ne.symm hne
    rw [hlookup, List.lookup_append, hnone, Option.or_none]
  · have hfirst : fields.filter (fun q => p q.1) = [] := List.filter_eq_nil_iff.2 fun q hq hpq =>
      (hp q.1).1 hpq (hfields.subset (List.mem_map_of_mem hq))
    have hlast : rest.filter (fun q => p q.1) = rest := List.filter_eq_self.2 fun q hq =>
      (hp q.1).2 (hapart q.1 (List.mem_map_of_mem hq))
    rw [hfilter, List.filter_append, hfirst, hlast, List.nil_append]

end Arranged

theorem tidy_of_lookup {t : Table Value} {k : String} {w : Value} (ht : (Value.obj t).Tidy)
    (hw : t.lookup k = some w) : w.Tidy :=
  (Value.tidy_obj_iff.1 ht).2 _ (Table.mem_of_lookup hw)

/-- A part of a tidy document is tidy. -/
theorem tidy_of_parts {names : List String} {v w : Value} {t : Table Value} {k : String} (hv : v.Tidy)
    (h : Decode.parts names v = some t) (hw : t.lookup k = some w) : w.Tidy := by
  have hmem := Table.mem_of_lookup hw
  cases v with
  | obj fields =>
    simp only [Decode.parts] at h
    split at h
    · cases h
      exact tidy_of_lookup hv hw
    · cases h
  | arr items =>
    simp only [Decode.parts] at h
    split at h
    · rw [← Option.some.inj h] at hmem
      exact Value.tidy_arr_iff.1 hv w (List.of_mem_zip hmem).2
    · cases h
  | _ => cases h

/-- What is read from an object only are its fields. -/
theorem eq_obj_of_fields {names : List String} {v : Value} {t : Table Value} (h : Decode.fields names v = some t) :
    v = .obj t := by
  cases v with
  | obj fields =>
    simp only [Decode.fields, Decode.parts] at h
    split at h <;> cases h
    rfl
  | _ => cases h

/-- An object stays tidy when fields are left out. -/
theorem tidy_filter {t : Table Value} (h : (Value.obj t).Tidy) (p : String × Value → Bool) :
    (Value.obj (t.filter p)).Tidy := by
  obtain ⟨hascending, hparts⟩ := Value.tidy_obj_iff.1 h
  exact Value.tidy_obj_iff.2 ⟨hascending.filter p, fun q hq => hparts q (List.mem_filter.1 hq).1⟩

/-! ### Tables -/

/-- Whether the names of a table stand in order and each entry fulfils a condition. -/
structure Table.Orderly {α : Type} (P : α → Prop) (t : Table α) : Prop where
  ascending : t.Ascending
  entries : ∀ p ∈ t, P p.2

section Tables

variable {α : Type} {P : α → Prop}

theorem Table.orderly_nil : Table.Orderly P [] := ⟨List.Pairwise.nil, fun _ h => absurd h List.not_mem_nil⟩

/-- A table is read entry by entry where no name stands twice. -/
theorem forall₂_of_table {decode : Value → Option α} {fields : Table Value} {t : Table α}
    (hnodup : (Table.keys fields).Nodup) (h : Decode.table decode (.obj fields) = some t) :
    List.Forall₂ (fun p q => p.1 = q.1 ∧ decode p.2 = some q.2) fields t ∧ Table.keys t = Table.keys fields := by
  obtain ⟨ps, hps, rfl⟩ := Option.map_eq_some_iff.1 h
  have hread : List.Forall₂ (fun p q => p.1 = q.1 ∧ decode p.2 = some q.2) fields ps := by
    refine (forall₂_of_mapM_eq_some hps).imp fun p q hpq => ?_
    obtain ⟨a, ha, rfl⟩ := Option.map_eq_some_iff.1 hpq
    exact ⟨rfl, ha⟩
  have hkeys : Table.keys ps = Table.keys fields := by
    clear hps h hnodup
    induction hread with
    | nil => rfl
    | cons hpq _ ih => exact List.cons_eq_cons.2 ⟨hpq.1.symm, ih⟩
  rw [Table.ofPairs_eq_self (hkeys ▸ hnodup)]
  exact ⟨hread, hkeys⟩

/-- **A table that is read from a tidy document is orderly**, with what holds of all that is read from its parts. -/
theorem orderly_of_table {decode : Value → Option α} {v : Value} {t : Table α} (hv : v.Tidy)
    (hdecode : ∀ w a, w.Tidy → decode w = some a → P a) (h : Decode.table decode v = some t) : t.Orderly P := by
  cases v with
  | obj fields =>
    obtain ⟨hascending, htidy⟩ := Value.tidy_obj_iff.1 hv
    obtain ⟨hread, hkeys⟩ := forall₂_of_table hascending.nodup h
    constructor
    · rw [Table.ascending_iff_keys, hkeys]
      exact Table.ascending_iff_keys.1 hascending
    · intro q hq
      obtain ⟨p, hp, -, ha⟩ := exists_of_forall₂_of_mem hread hq
      exact hdecode p.2 q.2 (htidy p hp) ha
  | _ => cases h

/-- **An orderly table is read back** if its entries are. -/
theorem table_sorted {decode : Value → Option α} {f : α → Value} {t : Table α} (ht : t.Orderly P)
    (h : ∀ a, P a → decode (f a).sorted = some a) :
    Decode.table decode (Value.obj (t.mapValues f)).sorted = some t := by
  have hread : ((Table.mapValues f t).mapValues Value.sorted).mapM (fun p => (decode p.2).map fun a => (p.1, a))
      = some t := by
    rw [Table.mapValues, Table.mapValues, List.map_map]
    exact mapM_map_of_some fun p hp => by simp [h p.2 (ht.entries p hp)]
  have hascending : ((Table.mapValues f t).mapValues Value.sorted).Ascending :=
    Table.ascending_mapValues_iff.2 (Table.ascending_mapValues_iff.2 ht.ascending)
  rw [Value.sorted_obj, Table.sorted_eq_self hascending, Decode.table, hread, Option.map_some,
    Table.ofPairs_eq_self ht.ascending.nodup]

end Tables

end Groundwork
