import Groundwork.Data.Table

/-!
# Entries of tables

Main statements: a table made of pairs with distinct names gives each name its own entry (`lookup_ofPairs`),
and so does a table made of chosen items of a list (`lookup_filterMap_eq_some_iff`); an entry is written where its name
stands (`put_cases`), and leaving one out keeps all others in place (`exists_erase_eq`).  `Within` compares tables by
their entries.
-/

namespace Groundwork

theorem eraseDups_of_nodup {α : Type} [BEq α] [LawfulBEq α] {l : List α} (h : l.Nodup) : l.eraseDups = l := by
  induction l with
  | nil => rfl
  | cons a l ih =>
    obtain ⟨ha, hl⟩ := List.nodup_cons.1 h
    have hfilter : l.filter (fun b => !b == a) = l :=
      List.filter_eq_self.2 fun b hb => by simpa using fun heq : b = a => ha (heq ▸ hb)
    rw [List.eraseDups_cons, hfilter, ih hl]

/-- **Under distinct keys the pairs of a list are what can be looked up in it.** -/
theorem lookup_eq_some_iff_mem {κ α : Type} [DecidableEq κ] {t : List (κ × α)} (h : (t.map Prod.fst).Nodup) {k : κ}
    {v : α} : t.lookup k = some v ↔ (k, v) ∈ t := by
  induction t with
  | nil => simp
  | cons p t ih =>
    obtain ⟨l, w⟩ := p
    obtain ⟨hl, ht⟩ := List.nodup_cons.1 h
    rw [List.lookup_cons, List.mem_cons, Prod.mk.injEq]
    by_cases hk : k = l
    · subst hk
      have hnot : (k, v) ∉ t := fun hm => hl (List.mem_map.2 ⟨(k, v), hm, rfl⟩)
      rw [beq_self_eq_true]
      show some w = some v ↔ _
      rw [Option.some.injEq, or_iff_left hnot, eq_comm (a := w)]
      exact (and_iff_right rfl).symm
    · have hne : (k == l) = false := by simpa using hk
      rw [hne]
      show t.lookup k = some v ↔ _
      rw [ih ht, or_iff_right fun hm => hk hm.1]

/-! ### Tables of pairs -/

namespace Table

variable {α : Type}

/-- Later pairs of other names leave an entry alone. -/
theorem lookup_foldl_put {ps : List (String × α)} {k : String} (h : k ∉ ps.map (·.1)) (t : Table α) :
    (ps.foldl (fun t p => t.put p.1 p.2) t).lookup k = t.lookup k := by
  induction ps generalizing t with
  | nil => rfl
  | cons p ps ih =>
    simp only [List.map_cons, List.mem_cons, not_or] at h
    rw [List.foldl_cons, ih h.2, lookup_put_ne t p.2 h.1]

theorem lookup_erase_self (t : Table α) (k : String) : (t.erase k).lookup k = none := by
  rw [List.lookup_eq_none_iff]
  intro p hp
  have hne : p.1 ≠ k := by simpa [erase] using (List.mem_filter.1 hp).2
  simpa using Ne.symm hne

theorem lookup_erase_ne (t : Table α) {k l : String} (h : l ≠ k) : (t.erase k).lookup l = t.lookup l := by
  induction t with
  | nil => rfl
  | cons p t ih =>
    obtain ⟨a, v⟩ := p
    by_cases ha : a = k
    · have hl : (l == a) = false := by simpa [ha] using h
      simpa [erase, List.filter_cons, ha, List.lookup_cons, ha ▸ hl] using ih
    · by_cases hl : l = a
      · simp [erase, ha, hl]
      · have hne : (l == a) = false := by simpa using hl
        simpa [erase, List.filter_cons, ha, List.lookup_cons, hne] using ih

/-- **Of pairs with distinct names each is an entry.** -/
theorem lookup_ofPairs {ps : List (String × α)} (h : (ps.map (·.1)).Nodup) {k : String} {v : α}
    (hp : (k, v) ∈ ps) : (ofPairs ps).lookup k = some v := by
  have key : ∀ (ps : List (String × α)) (t : Table α), (ps.map (·.1)).Nodup → (k, v) ∈ ps →
      (ps.foldl (fun t p => t.put p.1 p.2) t).lookup k = some v := by
    intro ps
    induction ps with
    | nil => intro t _ hp; cases hp
    | cons p ps ih =>
      intro t h hp
      obtain ⟨hk, hps⟩ := List.nodup_cons.1 h
      rcases List.mem_cons.1 hp with rfl | hp
      · rw [List.foldl_cons, lookup_foldl_put hk, lookup_put_self]
      · exact ih _ hps hp
  exact key ps [] h hp

theorem ofPairs_eq_nil_iff {ps : List (String × α)} : ofPairs ps = [] ↔ ps = [] := by
  constructor
  · intro h
    have hput : ∀ (t : Table α) k v, t.put k v ≠ [] := by
      intro t k v
      cases t with
      | nil => simp [put]
      | cons p t =>
        unfold put
        split <;> simp
    have hfold : ∀ (ps : List (String × α)) (t : Table α), t ≠ [] →
        ps.foldl (fun t p => t.put p.1 p.2) t ≠ [] := by
      intro ps
      induction ps with
      | nil => intro t ht; exact ht
      | cons p ps ih => intro t _; exact ih _ (hput t p.1 p.2)
    cases ps with
    | nil => rfl
    | cons p ps => exact absurd h (hfold ps _ (hput [] p.1 p.2))
  · rintro rfl
    rfl

/-! ### Tables of items -/

theorem mem_of_lookup {t : Table α} {k : String} {v : α} (h : t.lookup k = some v) : (k, v) ∈ t := by
  obtain ⟨l, r, rfl, -⟩ := List.lookup_eq_some_iff.1 h
  exact List.mem_append_right l List.mem_cons_self

theorem mem_keys_iff {t : Table α} {k : String} : k ∈ keys t ↔ ∃ v, t.lookup k = some v := by
  constructor
  · intro h
    obtain ⟨⟨k', v⟩, hp, rfl⟩ := List.mem_map.1 h
    cases hlookup : t.lookup k' with
    | some w => exact ⟨w, rfl⟩
    | none => exact absurd (List.lookup_eq_none_iff.1 hlookup _ hp) (by simp)
  · rintro ⟨v, h⟩
    exact List.mem_map_of_mem (mem_of_lookup h)

theorem lookup_eq_none_iff {t : Table α} {k : String} : t.lookup k = none ↔ k ∉ t.keys := by
  rw [mem_keys_iff, Option.eq_none_iff_forall_ne_some]
  exact not_exists.symm

/-- **Under distinct names the entries of a table are what can be looked up.** -/
theorem lookup_eq_some_iff {t : Table α} (h : (t.map (·.1)).Nodup) {k : String} {v : α} :
    t.lookup k = some v ↔ (k, v) ∈ t :=
  lookup_eq_some_iff_mem h

/-- **A table made of the items that pass a test, under their own names, has the entry of each of them.** -/
theorem lookup_filterMap_eq_some_iff {β : Type} {name : β → String} {entry : β → Option α} {keep : β → Bool}
    {l : List β} (h : (l.map name).Nodup) {k : String} {v : α} :
    ((l.filter keep).filterMap fun b => (entry b).map fun a => (name b, a)).lookup k = some v ↔
      ∃ b ∈ l, name b = k ∧ keep b = true ∧ entry b = some v := by
  have hnames : ∀ l : List β, (((l.filter keep).filterMap fun b => (entry b).map fun a => (name b, a)).map
      (·.1)).Sublist (l.map name) := by
    intro l
    induction l with
    | nil => exact List.Sublist.refl _
    | cons b l ih =>
      rw [List.filter_cons, List.map_cons]
      split
      · rw [List.filterMap_cons]
        cases entry b with
        | none => exact ih.cons _
        | some a => exact ih.cons_cons _
      · exact ih.cons _
  rw [lookup_eq_some_iff (h.sublist (hnames l)), List.mem_filterMap]
  constructor
  · rintro ⟨b, hb, he⟩
    obtain ⟨a, ha, hp⟩ := Option.map_eq_some_iff.1 he
    obtain ⟨hl, hkeep⟩ := List.mem_filter.1 hb
    cases hp
    exact ⟨b, hl, rfl, hkeep, ha⟩
  · rintro ⟨b, hl, rfl, hkeep, ha⟩
    exact ⟨b, List.mem_filter.2 ⟨hl, hkeep⟩, by rw [ha]; rfl⟩

/-! ### Places of entries -/

section Places

variable (t : Table α)

/-- **An entry is written where its name stands**, and at the end if the name is new. -/
theorem put_cases (k : String) (v : α) :
    (∃ i w, t[i]? = some (k, w) ∧ t.put k v = t.set i (k, v)) ∨ k ∉ t.keys ∧ t.put k v = t ++ [(k, v)] := by
  induction t with
  | nil => exact Or.inr ⟨List.not_mem_nil, rfl⟩
  | cons p t ih =>
    obtain ⟨k', v'⟩ := p
    by_cases hk : k' = k
    · subst hk
      exact Or.inl ⟨0, v', rfl, if_pos rfl⟩
    · have hput : put ((k', v') :: t) k v = (k', v') :: put t k v := if_neg hk
      rcases ih with ⟨i, w, hi, hset⟩ | ⟨hnew, hend⟩
      · exact Or.inl ⟨i + 1, w, hi, by rw [hput, hset]; rfl⟩
      · refine Or.inr ⟨fun hmem => ?_, by rw [hput, hend]; rfl⟩
        exact (List.mem_cons.1 hmem).elim (fun heq => hk heq.symm) hnew

/-- A new entry goes to the end. -/
theorem put_of_not_has {t : Table α} {k : String} (h : t.has k = false) (v : α) : t.put k v = t ++ [(k, v)] := by
  have hnew : k ∉ t.keys := lookup_eq_none_iff.1 (by simpa [has] using h)
  rcases t.put_cases k v with ⟨i, w, hi, -⟩ | ⟨-, hend⟩
  · exact absurd (List.mem_map_of_mem (List.mem_of_getElem? hi)) hnew
  · exact hend

theorem keys_prefix_put (k : String) (v : α) : t.keys <+: (t.put k v).keys := by
  induction t with
  | nil => exact List.nil_prefix
  | cons p t ih =>
    unfold put
    split
    · rename_i hk
      rw [show keys (p :: t) = p.1 :: keys t from rfl, hk]
      exact List.prefix_refl _
    · exact (List.prefix_cons_inj p.1).2 ih

/-- Names keep their places, however many entries are written. -/
theorem keys_prefix_foldl_put (ps : List (String × α)) : t.keys <+: (ps.foldl (fun u p => u.put p.1 p.2) t).keys := by
  induction ps generalizing t with
  | nil => exact List.prefix_refl _
  | cons p ps ih => exact (t.keys_prefix_put p.1 p.2).trans (ih _)

/-- Leaving out an entry of a table with distinct names keeps what stands before and after it. -/
theorem exists_erase_eq {t : Table α} (h : t.keys.Nodup) {k : String} {v : α} (hk : t.lookup k = some v) :
    ∃ l r, t = l ++ (k, v) :: r ∧ t.erase k = l ++ r := by
  obtain ⟨l, r, rfl, hl⟩ := List.lookup_eq_some_iff.1 hk
  have hbefore : ∀ p ∈ l, p.1 ≠ k := fun p hp heq => by simpa [heq] using hl p hp
  have hafter : ∀ p ∈ r, p.1 ≠ k := by
    intro p hp heq
    have hnodup : (k :: keys r).Nodup :=
      h.sublist ((List.sublist_append_right l ((k, v) :: r)).map Prod.fst)
    exact (List.nodup_cons.1 hnodup).1 (heq ▸ List.mem_map_of_mem hp)
  refine ⟨l, r, rfl, ?_⟩
  rw [erase, List.filter_append, List.filter_cons_of_neg (by simp),
    List.filter_eq_self.2 fun p hp => decide_eq_true (hbefore p hp),
    List.filter_eq_self.2 fun p hp => decide_eq_true (hafter p hp)]

end Places

/-! ### Comparing tables -/

/-- Every entry of the one table is one of the other. -/
def Within (t u : Table α) : Prop := ∀ k v, t.lookup k = some v → u.lookup k = some v

theorem Within.refl (t : Table α) : t.Within t := fun _ _ h => h

theorem Within.trans {t u w : Table α} (h : t.Within u) (h' : u.Within w) : t.Within w :=
  fun k v e => h' k v (h k v e)

theorem nil_within (t : Table α) : Within [] t := fun _ _ h => by cases h

end Table

end Groundwork
