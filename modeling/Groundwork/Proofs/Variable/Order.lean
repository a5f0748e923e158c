import Groundwork.Proofs.Data.Sorted
import Groundwork.Variable.Order
import Mathlib.Data.List.Nodup
import Mathlib.Data.List.Perm.Subperm
import Mathlib.Logic.Relation

/-!
# Variables are listed after what they refer to

The search keeps the variables that it is visiting, each of which leads to the one that it has come to, and those
that it has visited, each after all that it refers to (`Search.Sound`).  What it meets again while it is visiting it
closes a cycle.  The depth never runs out, since what is being visited is declared and is in the list once.

Main statements: the variables are listed once each, after all that their metadata refers to; or a cycle is found,
and the failure names a variable on it and one that this refers to directly (`sort_cases`).  They can be listed
exactly if no variable leads back to itself (`acyclic_iff_sort`).
-/

namespace Groundwork

namespace Table

variable {α : Type}

theorem mem_keys_file_iff {t : Table α} {k l : String} {v : α} :
    l ∈ keys (t.file k v) ↔ l = k ∨ l ∈ keys t := by
  refine ⟨mem_keys_file, ?_⟩
  induction t with
  | nil =>
    rintro (rfl | h)
    · exact List.mem_singleton.2 rfl
    · cases h
  | cons p t ih =>
    obtain ⟨k', v'⟩ := p
    intro h
    have h : l = k ∨ l = k' ∨ l ∈ keys t := h.imp_right List.mem_cons.1
    unfold file
    split
    · rename_i hk
      subst hk
      exact List.mem_cons.2 (h.elim Or.inl id)
    · split
      · exact List.mem_cons.2 (h.imp_right List.mem_cons.2)
      · refine List.mem_cons.2 ?_
        rcases h with h | h | h
        · exact Or.inr (ih (Or.inl h))
        · exact Or.inl h
        · exact Or.inr (ih (Or.inr h))

theorem mem_keys_sorted_iff {ps : List (String × α)} {k : String} :
    k ∈ keys (sorted ps) ↔ k ∈ ps.map (·.1) := by
  have hfold : ∀ t : Table α, k ∈ keys (ps.foldl (fun t p => t.file p.1 p.2) t) ↔
      k ∈ keys t ∨ k ∈ ps.map (·.1) := by
    induction ps with
    | nil => simp
    | cons p ps ih =>
      intro t
      rw [List.foldl_cons, ih, mem_keys_file_iff, List.map_cons, List.mem_cons, or_assoc, or_left_comm]
  exact (hfold []).trans (by simp [keys])

end Table

namespace Variable

open Relation

variable {s : Schema} {x y : Search} {n : Nat}

/-- Whether some metadata of a variable refers to another. -/
def DependsOn (s : Schema) (a b : String) : Prop := b ∈ dependencies s a

/-- Whether no variable leads back to itself. -/
def Acyclic (s : Schema) : Prop := ∀ a, ¬ TransGen (DependsOn s) a a

/-- Whether all that variables refer to is declared. -/
def Grounded (s : Schema) : Prop := ∀ a b, DependsOn s a b → b ∈ s.keys

theorem mem_dependenciesOf {m : Metadata} {b : String} :
    b ∈ dependenciesOf m ↔ ∃ u ∈ m.uses, u.name = b := by
  rw [dependenciesOf, Table.mem_keys_sorted_iff, List.map_map]
  exact List.mem_map

theorem dependencies_eq {a : String} {m : Metadata} (h : s.lookup a = some m) :
    dependencies s a = dependenciesOf m := by
  rw [dependencies, h]
  rfl

/-! ### The search -/

/-- What holds at every stage of the search. -/
structure Search.Sound (s : Schema) (x : Search) : Prop where
  active_nodup : x.active.Nodup
  active_known : ∀ a ∈ x.active, a ∈ s.keys
  done_nodup : x.done.Nodup
  done_known : ∀ a ∈ x.done, a ∈ s.keys
  disjoint : ∀ a ∈ x.active, a ∉ x.done
  ordered : ∀ later a past, x.done = later ++ a :: past → ∀ b, DependsOn s a b → b ∈ past

/-- Whether a step of the search from `x` has visited `wanted` and comes back to where it was, or has found a
cycle. -/
def Search.Visits (s : Schema) (x : Search) (wanted : List String) : Except CompileError Search → Prop
  | .ok y => y.Sound s ∧ y.active = x.active ∧ x.done ⊆ y.done ∧ wanted ⊆ y.done
  | .error e => ∃ a b, e = .circularVariableDependency a b ∧ DependsOn s a b ∧ ReflTransGen (DependsOn s) b a

/-- The variables being visited are no more than there are declared. -/
theorem Search.Sound.length_active_le (hx : x.Sound s) : x.active.length ≤ s.length := by
  have hlength := (hx.active_nodup.subperm hx.active_known).length_le
  rwa [Table.keys, List.length_map] at hlength

/-- Steps one after the other visit what each of them visits. -/
theorem Search.Sound.visits_foldlM (hx : x.Sound s) {l : List String}
    {f : Search → String → Except CompileError Search}
    (hf : ∀ a ∈ l, ∀ y : Search, y.Sound s → y.active = x.active → y.Visits s [a] (f y a)) :
    x.Visits s l (l.foldlM f x) := by
  have hall : ∀ y : Search, y.Sound s → y.active = x.active → y.Visits s l (l.foldlM f y) := by
    induction l with
    | nil => exact fun y hy _ => ⟨hy, rfl, List.Subset.refl _, List.nil_subset _⟩
    | cons a l ih =>
      intro y hy hactive
      rw [List.foldlM_cons]
      have hfirst := hf a List.mem_cons_self y hy hactive
      cases hstep : f y a with
      | error e =>
        rw [hstep] at hfirst
        exact hfirst
      | ok z =>
        rw [hstep] at hfirst
        obtain ⟨hz, hzactive, hdone, hwanted⟩ := hfirst
        have hrest := ih (fun b hb => hf b (List.mem_cons_of_mem a hb)) z hz (hzactive.trans hactive)
        show y.Visits s (a :: l) (l.foldlM f z)
        cases hlast : l.foldlM f z with
        | error e =>
          rw [hlast] at hrest
          exact hrest
        | ok w =>
          rw [hlast] at hrest
          obtain ⟨hw, hwactive, hwdone, hwwanted⟩ := hrest
          exact ⟨hw, hwactive.trans hzactive, List.Subset.trans hdone hwdone,
            List.cons_subset.2 ⟨hwdone (hwanted List.mem_cons_self), hwwanted⟩⟩
  exact hall x hx rfl

/-- A variable comes to be visited. -/
theorem Search.Sound.enter (hx : x.Sound s) {a : String} (ha : a ∈ s.keys) (hactive : a ∉ x.active)
    (hdone : a ∉ x.done) : Search.Sound s { x with active := a :: x.active } where
  active_nodup := List.nodup_cons.2 ⟨hactive, hx.active_nodup⟩
  active_known := List.forall_mem_cons.2 ⟨ha, hx.active_known⟩
  done_nodup := hx.done_nodup
  done_known := hx.done_known
  disjoint := List.forall_mem_cons.2 ⟨hdone, hx.disjoint⟩
  ordered := hx.ordered

/-- A variable has been visited, after all that it refers to. -/
theorem Search.Sound.leave (hy : y.Sound s) {a : String} {active : List String} (hactive : y.active = a :: active)
    (hbelow : dependencies s a ⊆ y.done) : Search.Sound s ⟨active, a :: y.done⟩ := by
  have hnodup := hy.active_nodup
  have hknown := hy.active_known
  have hdisjoint := hy.disjoint
  rw [hactive] at hnodup hknown hdisjoint
  rw [List.nodup_cons] at hnodup
  rw [List.forall_mem_cons] at hknown hdisjoint
  refine ⟨hnodup.2, hknown.2, List.nodup_cons.2 ⟨hdisjoint.1, hy.done_nodup⟩,
    List.forall_mem_cons.2 ⟨hknown.1, hy.done_known⟩, fun b hb hmem => ?_, fun later b past hdone c hc => ?_⟩
  · rcases List.mem_cons.1 hmem with rfl | hmem
    · exact hnodup.1 hb
    · exact hdisjoint.2 b hb hmem
  · cases later with
    | nil =>
      cases hdone
      exact hbelow hc
    | cons d later => exact hy.ordered later b past (List.cons.inj hdone).2 c hc

/-- A visit ends when all below has been visited. -/
theorem Search.Visits.leave {a : String} {r : Except CompileError Search}
    (h : Search.Visits s { x with active := a :: x.active } (dependencies s a) r) :
    x.Visits s [a] (r >>= fun below => .ok ⟨below.active.erase a, a :: below.done⟩) := by
  cases r with
  | error e => exact h
  | ok y =>
    obtain ⟨hy, hactive, hdone, hwanted⟩ := h
    have hactive : y.active = a :: x.active := hactive
    show x.Visits s [a] (.ok ⟨y.active.erase a, a :: y.done⟩)
    rw [hactive, List.erase_cons_head]
    exact ⟨hy.leave hactive hwanted, rfl, List.Subset.trans hdone (List.subset_cons_self _ _),
      List.cons_subset.2 ⟨List.mem_cons_self, List.nil_subset _⟩⟩

/-- **A visit lists a variable after all that it refers to, or it finds a cycle.** -/
theorem visits_visit (hs : Grounded s) : ∀ (n : Nat) {x : Search} {a : String}, x.Sound s → a ∈ s.keys →
    a ∉ x.active → a ∉ x.done → (∀ b ∈ x.active, ReflTransGen (DependsOn s) b a) →
    s.length < n + x.active.length → x.Visits s [a] (visit s n x a) := by
  intro n
  induction n with
  | zero =>
    intro x a hx _ _ _ _ hdepth
    have := hx.length_active_le
    omega
  | succ n ih =>
    intro x a hx ha hactive hdone hleads hdepth
    rw [visit]
    refine Search.Visits.leave ((hx.enter ha hactive hdone).visits_foldlM fun b hb y hy hyactive => ?_)
    -- what a variable refers to leads on from all that are being visited
    have hyactive : y.active = a :: x.active := hyactive
    have hback : ∀ c ∈ y.active, ReflTransGen (DependsOn s) c a := by
      rw [hyactive]
      exact List.forall_mem_cons.2 ⟨.refl, hleads⟩
    split
    · rename_i hmeets
      exact ⟨a, b, rfl, hb, hback b (List.contains_iff_mem.1 hmeets)⟩
    · rename_i hfresh
      rw [List.contains_iff_mem] at hfresh
      split
      · rename_i hbdone
        exact ⟨hy, rfl, List.Subset.refl _,
          List.cons_subset.2 ⟨List.contains_iff_mem.1 hbdone, List.nil_subset _⟩⟩
      · rename_i hbdone
        rw [List.contains_iff_mem] at hbdone
        refine ih hy (hs a b hb) hfresh hbdone (fun c hc => (hback c hc).tail hb) ?_
        rw [hyactive, List.length_cons]
        omega

/-- The search from all variables. -/
def searched (s : Schema) : Except CompileError Search :=
  s.keys.foldlM (fun search name =>
    if search.done.contains name then .ok search else visit s (s.length + 1) search name) ⟨[], []⟩

theorem visits_searched (hs : Grounded s) : Search.Visits s ⟨[], []⟩ s.keys (searched s) := by
  have hstart : Search.Sound s ⟨[], []⟩ :=
    ⟨List.nodup_nil, nofun, List.nodup_nil, nofun, nofun, fun later a past h => by cases later <;> cases h⟩
  refine hstart.visits_foldlM fun a ha y hy hactive => ?_
  have hactive : y.active = [] := hactive
  split
  · rename_i hdone
    exact ⟨hy, rfl, List.Subset.refl _, List.cons_subset.2 ⟨List.contains_iff_mem.1 hdone, List.nil_subset _⟩⟩
  · rename_i hdone
    rw [List.contains_iff_mem] at hdone
    refine visits_visit hs _ hy ha (by rw [hactive]; exact List.not_mem_nil) hdone ?_ ?_
    · rw [hactive]
      exact nofun
    · rw [hactive]
      exact Nat.lt_succ_self _

/-! ### The listing -/

/-- What is said of a list of all variables in order. -/
structure Listed (s : Schema) (l : List Sorted) : Prop where
  nodup : (l.map (·.name)).Nodup
  complete : ∀ a, a ∈ l.map (·.name) ↔ a ∈ s.keys
  entries : ∀ v ∈ l, s.lookup v.name = some v.metadata ∧ v.dependencies = dependenciesOf v.metadata
  ordered : ∀ past v later, l = past ++ v :: later → ∀ b ∈ v.dependencies, b ∈ past.map (·.name)

/-- The entries of a list of names. -/
def entriesOf (s : Schema) (names : List String) : List Sorted :=
  names.filterMap fun name => (s.lookup name).map fun m => ⟨name, m, dependenciesOf m⟩

theorem sort_eq (s : Schema) : sort s = searched s >>= fun y => .ok (entriesOf s y.done.reverse) := by
  unfold sort orderedNames
  rw [← searched]
  cases searched s <;> rfl

theorem mem_entriesOf {names : List String} {v : Sorted} (h : v ∈ entriesOf s names) :
    s.lookup v.name = some v.metadata ∧ v.dependencies = dependenciesOf v.metadata := by
  obtain ⟨name, -, hname⟩ := List.mem_filterMap.1 h
  obtain ⟨m, hm, rfl⟩ := Option.map_eq_some_iff.1 hname
  exact ⟨hm, rfl⟩

/-- Names that are declared all have their entries. -/
theorem names_entriesOf {names : List String} (h : ∀ a ∈ names, a ∈ s.keys) :
    (entriesOf s names).map (·.name) = names := by
  induction names with
  | nil => rfl
  | cons a names ih =>
    rw [List.forall_mem_cons] at h
    obtain ⟨m, hm⟩ := Table.mem_keys_iff.1 h.1
    rw [entriesOf, List.filterMap_cons, hm]
    exact congrArg (a :: ·) (ih h.2)

/-- A search that has come to its end has all variables in order. -/
theorem Search.Sound.listed (hx : x.Sound s) (hall : s.keys ⊆ x.done) : Listed s (entriesOf s x.done.reverse) := by
  have hnames := names_entriesOf fun a ha => hx.done_known a (List.mem_reverse.1 ha)
  refine ⟨?_, fun a => ?_, fun v hv => mem_entriesOf hv, fun past v later hl b hb => ?_⟩
  · rw [hnames]
    exact List.nodup_reverse.2 hx.done_nodup
  · rw [hnames, List.mem_reverse]
    exact ⟨hx.done_known a, fun ha => hall ha⟩
  · have hv : v ∈ entriesOf s x.done.reverse := by
      rw [hl]
      exact List.mem_append_right _ List.mem_cons_self
    obtain ⟨hlookup, hdependencies⟩ := mem_entriesOf hv
    rw [hl, List.map_append, List.map_cons] at hnames
    have hdone : x.done = (later.map (·.name)).reverse ++ v.name :: (past.map (·.name)).reverse := by
      rw [← List.reverse_inj, ← hnames]
      simp
    refine List.mem_reverse.1 (hx.ordered _ _ _ hdone b ?_)
    rw [DependsOn, dependencies_eq hlookup, ← hdependencies]
    exact hb

/-- **Variables are listed once each, after all that their metadata refers to, or there is a cycle**, and the failure
names a variable on it and one that it refers to directly. -/
theorem sort_cases (hs : Grounded s) :
    (∃ l, sort s = .ok l ∧ Listed s l) ∨
      ∃ a b, sort s = .error (.circularVariableDependency a b) ∧ DependsOn s a b ∧
        ReflTransGen (DependsOn s) b a := by
  have hvisits := visits_searched hs
  rw [sort_eq]
  cases hsearch : searched s with
  | error e =>
    rw [hsearch] at hvisits
    obtain ⟨a, b, rfl, hab, hba⟩ := hvisits
    exact Or.inr ⟨a, b, rfl, hab, hba⟩
  | ok y =>
    rw [hsearch] at hvisits
    exact Or.inl ⟨_, rfl, hvisits.1.listed hvisits.2.2.2⟩

/-- What a variable refers to is listed before it. -/
theorem Listed.idxOf_lt {l : List Sorted} (hl : Listed s l) {a b : String} (h : DependsOn s a b) :
    (l.map (·.name)).idxOf b < (l.map (·.name)).idxOf a := by
  obtain ⟨m, hm⟩ : ∃ m, s.lookup a = some m := by
    rw [← Option.ne_none_iff_exists']
    intro hnone
    rw [DependsOn, dependencies, hnone] at h
    cases h
  have hknown : a ∈ l.map (·.name) := (hl.complete a).2 (Table.mem_keys_iff.2 ⟨m, hm⟩)
  obtain ⟨v, hv, rfl⟩ := List.mem_map.1 hknown
  obtain ⟨past, later, rfl⟩ := List.append_of_mem hv
  obtain ⟨hlookup, hdependencies⟩ := hl.entries v hv
  have hbefore : b ∈ past.map (·.name) := by
    refine hl.ordered past v later rfl b ?_
    rwa [hdependencies, ← dependencies_eq hlookup]
  have hnodup := hl.nodup
  rw [List.map_append, List.map_cons] at hnodup ⊢
  rw [List.idxOf_append_of_mem hbefore, List.idxOf_append_of_notMem, List.idxOf_cons_self, Nat.add_zero]
  · exact List.idxOf_lt_length_iff.2 hbefore
  · exact fun hmem => (List.nodup_append.1 hnodup).2.2 _ hmem _ List.mem_cons_self rfl

/-- **Variables can be listed exactly if none leads back to itself.** -/
theorem acyclic_iff_sort (hs : Grounded s) : Acyclic s ↔ ∃ l, sort s = .ok l := by
  constructor
  · intro hacyclic
    rcases sort_cases hs with ⟨l, hl, -⟩ | ⟨a, b, -, hab, hba⟩
    · exact ⟨l, hl⟩
    · exact absurd (TransGen.head' hab hba) (hacyclic a)
  · rintro ⟨l, hl⟩ a hcycle
    rcases sort_cases hs with ⟨l', -, hlisted⟩ | ⟨a, b, herror, -⟩
    · have hlater : ∀ {x y : String}, TransGen (DependsOn s) x y →
          (l'.map (·.name)).idxOf y < (l'.map (·.name)).idxOf x := by
        intro x y hxy
        induction hxy with
        | single h => exact hlisted.idxOf_lt h
        | tail _ h ih => exact (hlisted.idxOf_lt h).trans ih
      exact (hlater hcycle).false
    · rw [herror] at hl
      cases hl

end Variable

end Groundwork
