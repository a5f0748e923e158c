import Mathlib.Data.List.Forall2
import Mathlib.Data.List.Nodup
import Mathlib.Data.String.Basic
import Groundwork.Data.Value
import Groundwork.Proofs.Data.Table

/-!
# Tables and objects sorted by name

A table is sorted by filing its entries one after the other.  Where no name stands twice, that changes nothing
but the order: the entries stay, and each name is looked up as before.  `Table.Ascending` says that the names
stand in order; there is one such order only, so that a sorted table is told by its entries.

A value is tidy if all of its objects are sorted.  Every document that is read is.

The fields of an object have no order of their own: two values are alike if they differ in nothing but the order in
which fields stand.  Where no object has a name twice, that is the case exactly if sorting makes them equal.

Main statements: `Table.sorted_perm`, `Table.sorted_eq_self`, `Value.tidy_obj_iff`, `Value.tidy_sorted`,
`Value.alike_iff_sorted_eq`.
-/

namespace Groundwork

theorem map_eq_self_iff {α : Type} {f : α → α} {l : List α} : l.map f = l ↔ ∀ a ∈ l, f a = a := by
  simpa using List.map_inj_left (f := f) (g := id) (l := l)

namespace Table

variable {α β : Type}

theorem keys_mapValues (f : α → β) (t : Table α) : keys (t.mapValues f) = keys t := by
  simp [keys, mapValues, Function.comp_def]

theorem lookup_mapValues (f : α → β) (t : Table α) (k : String) :
    (t.mapValues f).lookup k = (t.lookup k).map f := by
  induction t with
  | nil => rfl
  | cons p t ih =>
    obtain ⟨l, v⟩ := p
    rw [mapValues, List.map_cons, List.lookup_cons, List.lookup_cons]
    cases k == l with
    | true => rfl
    | false => exact ih

/-- Two tables of the same entries under distinct names give each name the same entry. -/
theorem lookup_of_perm {t u : Table α} (h : t.Perm u) (hnodup : (keys t).Nodup) (k : String) :
    t.lookup k = u.lookup k := by
  have hu : (keys u).Nodup := (h.map Prod.fst).nodup_iff.1 hnodup
  ext v
  rw [lookup_eq_some_iff hnodup, lookup_eq_some_iff hu, h.mem_iff]

/-- A table of distinct names is the table of its entries. -/
theorem ofPairs_eq_self {t : Table α} (h : (keys t).Nodup) : ofPairs t = t := by
  have key : ∀ (ps : List (String × α)) (t : Table α), (keys (t ++ ps)).Nodup →
      ps.foldl (fun t p => t.put p.1 p.2) t = t ++ ps := by
    intro ps
    induction ps with
    | nil => intro t _; exact (List.append_nil t).symm
    | cons p ps ih =>
      intro t h
      have hnew : t.has p.1 = false := by
        rw [has, Option.isSome_eq_false_iff, Option.isNone_iff_eq_none, List.lookup_eq_none_iff]
        intro q hq
        rw [keys, List.map_append, List.nodup_append] at h
        have hne := h.2.2 q.1 (List.mem_map_of_mem hq) p.1 List.mem_cons_self
        simpa using Ne.symm hne
      rw [List.foldl_cons, put_of_not_has hnew, ih _ (by simpa using h), List.append_assoc]
      rfl
  exact key t [] h

/-! ### Tables whose names stand in order -/

/-- Whether the names of a table stand in order, none of them twice. -/
def Ascending (t : Table α) : Prop := t.Pairwise fun p q => p.1 < q.1

theorem Ascending.nodup {t : Table α} (h : t.Ascending) : (keys t).Nodup :=
  List.pairwise_map.2 (h.imp fun hpq => ne_of_lt hpq)

/-- There is only one way to put entries in order. -/
theorem Ascending.eq_of_perm {t u : Table α} (ht : t.Ascending) (hu : u.Ascending) (h : t.Perm u) : t = u :=
  h.eq_of_pairwise (fun _ _ _ _ hpq hqp => absurd hqp (lt_asymm hpq)) ht hu

theorem ascending_iff_keys {t : Table α} : t.Ascending ↔ (keys t).Pairwise (· < ·) := List.pairwise_map.symm

theorem ascending_mapValues_iff {f : α → β} {t : Table α} : (t.mapValues f).Ascending ↔ t.Ascending := by
  rw [ascending_iff_keys, ascending_iff_keys, keys_mapValues]

theorem mem_file {t : Table α} {k : String} {v : α} {p : String × α} (h : p ∈ t.file k v) : p = (k, v) ∨ p ∈ t := by
  induction t with
  | nil => exact .inl (List.mem_singleton.1 h)
  | cons q t ih =>
    obtain ⟨k', v'⟩ := q
    unfold file at h
    split at h
    · exact (List.mem_cons.1 h).imp_right (List.mem_cons_of_mem _)
    split at h
    · exact List.mem_cons.1 h
    · rcases List.mem_cons.1 h with rfl | h
      · exact .inr List.mem_cons_self
      · exact (ih h).imp_right (List.mem_cons_of_mem _)

theorem mem_keys_file {t : Table α} {k l : String} {v : α} (h : l ∈ keys (t.file k v)) : l = k ∨ l ∈ keys t := by
  obtain ⟨p, hp, rfl⟩ := List.mem_map.1 h
  rcases mem_file hp with rfl | hp
  · exact .inl rfl
  · exact .inr (List.mem_map_of_mem hp)

/-- Filing keeps the names in order. -/
theorem Ascending.file {t : Table α} (h : t.Ascending) (k : String) (v : α) : (t.file k v).Ascending := by
  rw [ascending_iff_keys] at h ⊢
  induction t with
  | nil => exact List.pairwise_singleton _ _
  | cons p t ih =>
    obtain ⟨k', v'⟩ := p
    obtain ⟨hfirst, hrest⟩ := List.pairwise_cons.1 h
    unfold Table.file
    split
    · rename_i heq
      exact heq ▸ h
    split
    · rename_i hlt
      refine List.pairwise_cons.2 ⟨fun l hl => ?_, h⟩
      rcases List.mem_cons.1 hl with rfl | hl
      · exact hlt
      · exact hlt.trans (hfirst l hl)
    · rename_i hne hlt
      refine List.pairwise_cons.2 ⟨fun l hl => ?_, ih hrest⟩
      rcases mem_keys_file hl with rfl | hl
      · exact (lt_or_gt_of_ne hne).resolve_right hlt
      · exact hfirst l hl

theorem file_perm {t : Table α} {k : String} (h : k ∉ keys t) (v : α) : (t.file k v).Perm ((k, v) :: t) := by
  induction t with
  | nil => exact .refl _
  | cons p t ih =>
    obtain ⟨k', v'⟩ := p
    obtain ⟨hne, hrest⟩ := not_or.1 fun hk => h (List.mem_cons.2 hk)
    rw [file, if_neg (Ne.symm hne)]
    split
    · exact .refl _
    · exact ((ih hrest).cons _).trans (.swap _ _ _)

/-- **A sorted table stands in order.** -/
theorem ascending_sorted (ps : List (String × α)) : (sorted ps).Ascending := by
  have key : ∀ (ps : List (String × α)) (t : Table α), t.Ascending →
      (ps.foldl (fun t p => t.file p.1 p.2) t).Ascending := by
    intro ps
    induction ps with
    | nil => intro t ht; exact ht
    | cons p ps ih => intro t ht; exact ih _ (ht.file p.1 p.2)
  exact key ps [] List.Pairwise.nil

theorem mem_of_mem_sorted {ps : List (String × α)} {p : String × α} (h : p ∈ sorted ps) : p ∈ ps := by
  have key : ∀ (ps : List (String × α)) (t : Table α), p ∈ ps.foldl (fun t p => t.file p.1 p.2) t →
      p ∈ ps ∨ p ∈ t := by
    intro ps
    induction ps with
    | nil => intro t h; exact .inr h
    | cons q ps ih =>
      intro t h
      rcases ih _ h with h | h
      · exact .inl (List.mem_cons_of_mem q h)
      · rcases mem_file h with rfl | h
        · exact .inl List.mem_cons_self
        · exact .inr h
  exact (key ps [] h).resolve_right List.not_mem_nil

/-- **Sorting entries of distinct names only puts them in another order.** -/
theorem sorted_perm {ps : List (String × α)} (h : (keys ps).Nodup) : (sorted ps).Perm ps := by
  have key : ∀ (ps : List (String × α)) (t : Table α), (keys (ps ++ t)).Nodup →
      (ps.foldl (fun t p => t.file p.1 p.2) t).Perm (ps ++ t) := by
    intro ps
    induction ps with
    | nil => intro t _; exact .refl t
    | cons p ps ih =>
      intro t h
      have hswap : (keys (ps ++ p :: t)).Nodup := (List.perm_middle.map _).nodup_iff.2 h
      have hnew : p.1 ∉ keys t := by
        rw [keys, List.map_append, List.nodup_append] at hswap
        exact (List.nodup_cons.1 hswap.2.1).1
      have hfile := file_perm hnew p.2
      have hnodup : (keys (ps ++ t.file p.1 p.2)).Nodup := ((hfile.append_left ps).map _).nodup_iff.2 hswap
      exact (ih _ hnodup).trans ((hfile.append_left ps).trans List.perm_middle)
  have hall := key ps [] (by simpa using h)
  rwa [List.append_nil] at hall

theorem sorted_eq_self {t : Table α} (h : t.Ascending) : sorted t = t :=
  (ascending_sorted t).eq_of_perm h (sorted_perm h.nodup)

theorem lookup_sorted {ps : List (String × α)} (h : (keys ps).Nodup) (k : String) :
    (sorted ps).lookup k = ps.lookup k :=
  (lookup_of_perm (sorted_perm h).symm h k).symm

/-- Entries can be chosen before or after sorting. -/
theorem filter_sorted {ps : List (String × α)} (h : (keys ps).Nodup) (p : String × α → Bool) :
    (sorted ps).filter p = sorted (ps.filter p) := by
  have hsub : (keys (ps.filter p)).Nodup := h.sublist (List.filter_sublist.map _)
  exact Ascending.eq_of_perm ((ascending_sorted ps).filter p) (ascending_sorted _)
    (((sorted_perm h).filter p).trans (sorted_perm hsub).symm)

/-- Tables of distinct names have the same entries exactly if sorting makes them equal. -/
theorem sorted_eq_sorted_iff {t u : Table α} (ht : (keys t).Nodup)
    (hu : (keys u).Nodup) : sorted t = sorted u ↔ t.Perm u := by
  constructor
  · intro h
    exact (sorted_perm ht).symm.trans (h ▸ sorted_perm hu)
  · intro h
    refine (ascending_sorted t).eq_of_perm (ascending_sorted u) ?_
    exact (sorted_perm ht).trans (h.trans (sorted_perm hu).symm)

end Table

/-! ### Values whose objects are sorted -/

namespace Value

theorem sortedFields_eq (fields : List (String × Value)) (t : Table Value) :
    sorted.sortedFields fields t = (Table.mapValues sorted fields).foldl (fun t p => t.file p.1 p.2) t := by
  induction fields generalizing t with
  | nil => rfl
  | cons p fields ih => exact ih _

theorem sortedItems_eq (items : List Value) : sorted.sortedItems items = items.map sorted := by
  induction items with
  | nil => rfl
  | cons v items ih => exact congrArg (sorted v :: ·) ih

theorem sorted_arr (items : List Value) : (arr items).sorted = .arr (items.map sorted) := by
  rw [sorted, sortedItems_eq]

theorem sorted_obj (fields : List (String × Value)) :
    (obj fields).sorted = .obj (Table.sorted (Table.mapValues sorted fields)) := by
  rw [sorted, sortedFields_eq]
  rfl

/-- Whether a value is one that an object, an array or a leaf of a document spells: objects are sorted by name. -/
def Tidy (v : Value) : Prop := v.sorted = v

theorem Tidy.sorted_eq {v : Value} (h : v.Tidy) : v.sorted = v := h

instance (v : Value) : Decidable v.Tidy := inferInstanceAs (Decidable (v.sorted = v))

theorem tidy_arr_iff {items : List Value} : (arr items).Tidy ↔ ∀ v ∈ items, v.Tidy := by
  rw [Tidy, sorted_arr, arr.injEq]
  exact map_eq_self_iff

/-- **An object is tidy if its names stand in order and its parts are tidy.** -/
theorem tidy_obj_iff {fields : Table Value} :
    (obj fields).Tidy ↔ fields.Ascending ∧ ∀ p ∈ fields, p.2.Tidy := by
  rw [Tidy, sorted_obj, obj.injEq]
  constructor
  · intro h
    have hordered : fields.Ascending := h ▸ Table.ascending_sorted _
    rw [Table.sorted_eq_self (Table.ascending_mapValues_iff.2 hordered)] at h
    exact ⟨hordered, fun p hp => congrArg Prod.snd (map_eq_self_iff.1 h p hp)⟩
  · rintro ⟨hordered, hparts⟩
    rw [Table.sorted_eq_self (Table.ascending_mapValues_iff.2 hordered)]
    exact map_eq_self_iff.2 fun p hp => Prod.ext rfl (hparts p hp)

/-- A part of an object is smaller than its fields. -/
theorem sizeOf_lt_of_mem {fields : Table Value} {p : String × Value} (hp : p ∈ fields) :
    sizeOf p.2 < sizeOf fields := by
  have hlt := List.sizeOf_lt_of_mem hp
  rw [Prod.mk.sizeOf_spec] at hlt
  omega

/-- What holds of an array if it holds of its items, of an object if it holds of its fields, and of all other values
holds of every value. -/
@[elab_as_elim]
theorem induction_on {P : Value → Prop} (null : P .null) (bool : ∀ b, P (.bool b)) (num : ∀ n, P (.num n))
    (str : ∀ s, P (.str s)) (arr : ∀ items : List Value, (∀ v ∈ items, P v) → P (.arr items))
    (obj : ∀ fields : List (String × Value), (∀ p ∈ fields, P p.2) → P (.obj fields)) : ∀ v, P v
  | .null => null
  | .bool b => bool b
  | .num n => num n
  | .str s => str s
  | .arr items => arr items fun v hv =>
    have _hsize := List.sizeOf_lt_of_mem hv
    induction_on null bool num str arr obj v
  | .obj fields => obj fields fun p hp =>
    have _hsize := sizeOf_lt_of_mem hp
    induction_on null bool num str arr obj p.2
termination_by v => sizeOf v

/-- Whether no object of a value has a name twice. -/
def Distinct : Value → Prop
  | .arr items => distinctItems items
  | .obj fields => (Table.keys fields).Nodup ∧ distinctFields fields
  | _ => True
where
  /-- The same for the items of an array. -/
  distinctItems : List Value → Prop
    | [] => True
    | v :: vs => Distinct v ∧ distinctItems vs
  /-- The same for the fields of an object. -/
  distinctFields : List (String × Value) → Prop
    | [] => True
    | (_, v) :: fields => Distinct v ∧ distinctFields fields

/-- Whether two values are the same but for the order of the fields in objects. -/
def Alike : Value → Value → Prop
  | .arr xs, .arr ys => alikeItems xs ys
  | .obj xs, .obj ys => Table.keys ys ⊆ Table.keys xs ∧ alikeFields xs ys
  | v, w => v = w
where
  /-- The same for items, one by one. -/
  alikeItems : List Value → List Value → Prop
    | [], [] => True
    | v :: vs, w :: ws => Alike v w ∧ alikeItems vs ws
    | _, _ => False
  /-- Whether each field has one like it among those of another object. -/
  alikeFields : List (String × Value) → List (String × Value) → Prop
    | [], _ => True
    | (k, v) :: fields, others => (∃ w, (k, w) ∈ others ∧ Alike v w) ∧ alikeFields fields others

theorem distinct_num (n : Number) : (num n).Distinct := trivial

theorem distinct_str (s : String) : (str s).Distinct := trivial

theorem distinct_arr_iff {items : List Value} : (arr items).Distinct ↔ ∀ v ∈ items, v.Distinct := by
  have hitems : ∀ items, Distinct.distinctItems items ↔ ∀ v ∈ items, v.Distinct := by
    intro items
    induction items with
    | nil => simp [Distinct.distinctItems]
    | cons v vs ih => simp [Distinct.distinctItems, ih]
  exact hitems items

theorem distinct_obj_iff {fields : Table Value} :
    (obj fields).Distinct ↔ (Table.keys fields).Nodup ∧ ∀ p ∈ fields, p.2.Distinct := by
  have hfields : ∀ fields, Distinct.distinctFields fields ↔ ∀ p ∈ fields, p.2.Distinct := by
    intro fields
    induction fields with
    | nil => simp [Distinct.distinctFields]
    | cons p fields ih => simp [Distinct.distinctFields, ih]
  rw [Distinct, hfields]

theorem alike_num_iff {n : Number} {w : Value} : (num n).Alike w ↔ num n = w := by
  cases w <;> simp [Alike]

theorem alike_str_iff {s : String} {w : Value} : (str s).Alike w ↔ str s = w := by
  cases w <;> simp [Alike]

theorem alike_arr_iff {xs ys : List Value} : (arr xs).Alike (arr ys) ↔ List.Forall₂ Alike xs ys := by
  rw [Alike]
  induction xs generalizing ys with
  | nil => cases ys <;> simp [Alike.alikeItems]
  | cons x xs ih => cases ys <;> simp [Alike.alikeItems, ih]

theorem alike_obj_iff {xs ys : List (String × Value)} :
    (obj xs).Alike (obj ys) ↔
      Table.keys ys ⊆ Table.keys xs ∧ ∀ p ∈ xs, ∃ w, (p.1, w) ∈ ys ∧ p.2.Alike w := by
  have hfields : ∀ xs, Alike.alikeFields xs ys ↔ ∀ p ∈ xs, ∃ w, (p.1, w) ∈ ys ∧ p.2.Alike w := by
    intro xs
    induction xs with
    | nil => simp [Alike.alikeFields]
    | cons p xs ih => simp [Alike.alikeFields, ih]
  rw [Alike, hfields]

theorem forall₂_alike_iff {xs ys : List Value} (h : ∀ v ∈ xs, ∀ w ∈ ys, (v.Alike w ↔ v.sorted = w.sorted)) :
    List.Forall₂ Alike xs ys ↔ xs.map sorted = ys.map sorted := by
  induction xs generalizing ys with
  | nil => simp [List.forall₂_nil_left_iff, eq_comm]
  | cons x xs ih =>
    cases ys with
    | nil => simp
    | cons y ys =>
      rw [List.forall₂_cons, List.map_cons, List.map_cons, List.cons.injEq,
        h x List.mem_cons_self y List.mem_cons_self,
        ih fun v hv w hw => h v (List.mem_cons_of_mem x hv) w (List.mem_cons_of_mem y hw)]

/-- Objects have the same entries once their parts are sorted, if they have the same names and each field becomes
one of the other. -/
theorem perm_mapValues_sorted_iff {xs ys : Table Value} (hx : (Table.keys xs).Nodup)
    (hy : (Table.keys ys).Nodup) :
    (Table.mapValues sorted xs).Perm (Table.mapValues sorted ys) ↔
      Table.keys ys ⊆ Table.keys xs ∧ ∀ p ∈ xs, ∃ w, (p.1, w) ∈ ys ∧ p.2.sorted = w.sorted := by
  have hmem : ∀ (zs : Table Value) (k : String) (u : Value),
      (k, u) ∈ Table.mapValues sorted zs ↔ ∃ z, (k, z) ∈ zs ∧ z.sorted = u := by
    intro zs k u
    simp [Table.mapValues]
  have hnodup : ∀ {zs : Table Value}, (Table.keys zs).Nodup → (Table.mapValues sorted zs).Nodup := by
    intro zs hz
    rw [← Table.keys_mapValues sorted] at hz
    exact List.Nodup.of_map _ hz
  rw [List.perm_ext_iff_of_nodup (hnodup hx) (hnodup hy)]
  constructor
  · intro h
    refine ⟨fun k hk => ?_, fun p hp => ?_⟩
    · obtain ⟨⟨_, y⟩, hq, rfl⟩ := List.mem_map.1 hk
      obtain ⟨x, hxk, -⟩ := (hmem xs _ _).1 ((h _).2 ((hmem ys _ _).2 ⟨y, hq, rfl⟩))
      exact List.mem_map.2 ⟨_, hxk, rfl⟩
    · obtain ⟨w, hw, heq⟩ := (hmem ys _ _).1 ((h _).1 ((hmem xs p.1 _).2 ⟨p.2, hp, rfl⟩))
      exact ⟨w, hw, heq.symm⟩
  · rintro ⟨hkeys, hfields⟩ ⟨k, u⟩
    rw [hmem, hmem]
    constructor
    · rintro ⟨x, hxk, rfl⟩
      obtain ⟨w, hw, heq⟩ := hfields _ hxk
      exact ⟨w, hw, heq.symm⟩
    · rintro ⟨y, hyk, rfl⟩
      -- the name is one of the first object too, and its field there becomes the only one of that name
      obtain ⟨⟨_, x⟩, hxk, rfl⟩ := List.mem_map.1 (hkeys (List.mem_map.2 ⟨_, hyk, rfl⟩))
      obtain ⟨w, hw, heq⟩ := hfields _ hxk
      have hw' := (Table.lookup_eq_some_iff hy).2 hw
      rw [(Table.lookup_eq_some_iff hy).2 hyk] at hw'
      cases hw'
      exact ⟨x, hxk, heq⟩

/-- **Values are alike exactly if sorting makes them equal.** -/
theorem alike_iff_sorted_eq : ∀ {v w : Value}, v.Distinct → w.Distinct → (v.Alike w ↔ v.sorted = w.sorted)
  | .arr xs, .arr ys, hv, hw => by
    rw [distinct_arr_iff] at hv hw
    rw [alike_arr_iff, sorted_arr, sorted_arr, arr.injEq]
    exact forall₂_alike_iff fun v hvm w hwm => alike_iff_sorted_eq (hv v hvm) (hw w hwm)
  | .obj xs, .obj ys, hv, hw => by
    rw [distinct_obj_iff] at hv hw
    have hx : (Table.keys (Table.mapValues sorted xs)).Nodup := by
      rw [Table.keys_mapValues]
      exact hv.1
    have hy : (Table.keys (Table.mapValues sorted ys)).Nodup := by
      rw [Table.keys_mapValues]
      exact hw.1
    rw [alike_obj_iff, sorted_obj, sorted_obj, obj.injEq, Table.sorted_eq_sorted_iff hx hy,
      perm_mapValues_sorted_iff hv.1 hw.1]
    refine and_congr_right fun _ => forall₂_congr fun p hp => exists_congr fun w => and_congr_right fun hwm => ?_
    have hsize := sizeOf_lt_of_mem hp
    exact alike_iff_sorted_eq (hv.2 p hp) (hw.2 _ hwm)
  | .null, w, _, _ => by cases w <;> simp [Alike, sorted]
  | .bool b, w, _, _ => by cases w <;> simp [Alike, sorted]
  | .num n, w, _, _ => by
    rw [alike_num_iff]
    cases w <;> simp [sorted]
  | .str s, w, _, _ => by
    rw [alike_str_iff]
    cases w <;> simp [sorted]
  | .arr xs, .null, _, _ | .arr xs, .bool _, _, _ | .arr xs, .num _, _, _ | .arr xs, .str _, _, _
  | .arr xs, .obj _, _, _ => by simp [Alike, sorted]
  | .obj xs, .null, _, _ | .obj xs, .bool _, _, _ | .obj xs, .num _, _, _ | .obj xs, .str _, _, _
  | .obj xs, .arr _, _, _ => by simp [Alike, sorted]
termination_by v => sizeOf v

end Value

end Groundwork
