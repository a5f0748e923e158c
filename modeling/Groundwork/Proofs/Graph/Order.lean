import Groundwork.Graph.Order
import Groundwork.Proofs.Graph.Contents
import Mathlib.Data.Fintype.Card
import Mathlib.Data.List.Nodup
import Mathlib.Data.Set.Finite.Basic
import Mathlib.Logic.Relation

/-!
# The order of dependencies is there exactly if no node depends on itself

`Graph.order` counts for every id the dependencies that are not listed yet.  `Listing.Sound` says what holds
at every stage: the counts are right, and the ids with a count of zero are those listed or in the queue.
`step` keeps it, hence it holds when the queue is empty.  Then an id that is not listed depends on another
one that is not listed, and in a finite graph that goes on until it comes to a cycle.

Main statements: what is listed are the ids that do not lead into a cycle (`mem_listed_iff_not_leadsIntoCycle`), hence
`order_isOk_iff` and `validate_eq_ok_iff`.
-/

namespace Groundwork.Graph

open Relation

variable {N : Type} [Identified N]

/-- A node depends on another: an edge leads to it, and both are there. -/
def DependsOn (g : Graph N) (a b : String) : Prop := ⟨a, b⟩ ∈ g.properEdges

/-- No node depends on itself in the end. -/
def Acyclic (g : Graph N) : Prop := ∀ id, ¬ TransGen g.DependsOn id id

theorem mem_properEdges {g : Graph N} {e : Edge} :
    e ∈ g.properEdges ↔ e ∈ g.edges ∧ e.source ∈ g.ids ∧ e.target ∈ g.ids := by
  simp [properEdges, contains_iff]

theorem properEdges_nodup (g : Graph N) : g.properEdges.Nodup := g.edges_nodup.filter _

/-! ### One stage -/

namespace Listing

/-- What holds at every stage of the listing of the ids `ids` along the edges `edges`. -/
structure Sound (ids : List String) (edges : List Edge) (s : Listing) : Prop where
  nodup : (s.listed ++ s.ready).Nodup
  known : ∀ id ∈ s.listed ++ s.ready, id ∈ ids
  count : ∀ id ∈ ids, s.count id = edges.countP fun e => e.source = id ∧ e.target ∉ s.listed
  free : ∀ id ∈ ids, s.count id = 0 ↔ id ∈ s.listed ++ s.ready
  ordered : ∀ past id future, s.listed = past ++ id :: future →
    ∀ e ∈ edges, e.source = id → e.target ∈ past

theorem count_release (s : Listing) (id x : String) :
    (s.release id).count x = if x = id then s.count id - 1 else s.count x := by
  unfold count release
  split
  · rename_i h
    rw [h, Table.lookup_put_self]
    rfl
  · rename_i h
    rw [Table.lookup_put_ne _ _ h]

theorem listed_foldl_release (l : List String) (s : Listing) :
    (l.foldl release s).listed = s.listed := by
  induction l generalizing s with
  | nil => rfl
  | cons id l ih => exact ih (s.release id)

/-- Releasing distinct ids takes one from the count of each. -/
theorem count_foldl_release {l : List String} (hl : l.Nodup) (s : Listing) (x : String) :
    (l.foldl release s).count x = if x ∈ l then s.count x - 1 else s.count x := by
  induction l generalizing s with
  | nil => simp
  | cons id l ih =>
    obtain ⟨hid, hl⟩ := List.nodup_cons.1 hl
    show (l.foldl release (s.release id)).count x = _
    rw [ih hl, count_release]
    by_cases hx : x = id
    · subst hx
      rw [if_neg hid, if_pos rfl, if_pos List.mem_cons_self]
    · simp only [hx, if_false, List.mem_cons, false_or]

/-- Releasing distinct ids puts those into the queue that had one dependency left. -/
theorem ready_foldl_release {l : List String} (hl : l.Nodup) (s : Listing)
    (hs : ∀ x ∈ l, 0 < s.count x) :
    (l.foldl release s).ready = s.ready ++ l.filter (s.count · = 1) := by
  induction l generalizing s with
  | nil => simp
  | cons id l ih =>
    obtain ⟨hid, hl⟩ := List.nodup_cons.1 hl
    have hcount : ∀ x ∈ l, (s.release id).count x = s.count x := by
      intro x hx
      have hne : x ≠ id := fun e => hid (e ▸ hx)
      rw [count_release, if_neg hne]
    have hfilter : l.filter ((s.release id).count · = 1) = l.filter (s.count · = 1) :=
      List.filter_congr fun x hx => by rw [hcount x hx]
    show (l.foldl release (s.release id)).ready = _
    rw [ih hl _ (fun x hx => by rw [hcount x hx]; exact hs x (List.mem_cons_of_mem id hx)), hfilter]
    have hpos := hs id List.mem_cons_self
    by_cases h1 : s.count id = 1
    · rw [List.filter_cons_of_pos (by simpa using h1)]
      show (if s.count id - 1 = 0 then s.ready ++ [id] else s.ready) ++ _ = _
      rw [if_pos (by omega), List.append_assoc]
      rfl
    · rw [List.filter_cons_of_neg (by simpa using h1)]
      show (if s.count id - 1 = 0 then s.ready ++ [id] else s.ready) ++ _ = _
      rw [if_neg (by omega)]

/-- The ids that depend on `id`, each once. -/
theorem nodup_sources {edges : List Edge} (h : edges.Nodup) (id : String) :
    ((edges.filter (·.target = id)).map (·.source)).Nodup := by
  refine List.Nodup.map_on ?_ (h.filter _)
  rintro ⟨a, b⟩ ha ⟨c, d⟩ hc hac
  have hb : b = id := by simpa using (List.mem_filter.1 ha).2
  have hd : d = id := by simpa using (List.mem_filter.1 hc).2
  rw [show a = c from hac, hb, hd]

theorem mem_sources {edges : List Edge} {id x : String} :
    x ∈ (edges.filter (·.target = id)).map (·.source) ↔ (⟨x, id⟩ : Edge) ∈ edges := by
  rw [List.mem_map]
  constructor
  · rintro ⟨⟨a, b⟩, he, rfl⟩
    obtain ⟨he, hb⟩ := List.mem_filter.1 he
    have hb : b = id := by simpa using hb
    exact hb ▸ he
  · intro h
    exact ⟨⟨x, id⟩, List.mem_filter.2 ⟨h, by simp⟩, rfl⟩

/-- Listing one more id takes the edges to it out of the count of open edges. -/
theorem countP_open_snoc {edges : List Edge} (h : edges.Nodup) {listed : List String} {id : String}
    (hid : id ∉ listed) (x : String) :
    (edges.countP fun e => e.source = x ∧ e.target ∉ listed ++ [id])
        + (if (⟨x, id⟩ : Edge) ∈ edges then 1 else 0)
      = edges.countP fun e => e.source = x ∧ e.target ∉ listed := by
  induction edges with
  | nil => rfl
  | cons e edges ih =>
    obtain ⟨he, hnodup⟩ := List.nodup_cons.1 h
    have ih := ih hnodup
    rw [List.countP_cons, List.countP_cons]
    by_cases hx : e = ⟨x, id⟩
    · subst hx
      simp only [he, if_false, Nat.add_zero] at ih
      simp only [List.mem_cons, true_or, if_true, ih]
      simp [hid]
    · have hmem : (⟨x, id⟩ : Edge) ∈ e :: edges ↔ (⟨x, id⟩ : Edge) ∈ edges := by
        rw [List.mem_cons]
        exact or_iff_right fun h => hx h.symm
      have hsame : (e.source = x ∧ e.target ∉ listed ++ [id]) ↔ (e.source = x ∧ e.target ∉ listed) := by
        refine and_congr_right fun hs => ?_
        have ht : e.target ≠ id := fun ht => hx (by cases e; subst hs; subst ht; rfl)
        simp [ht]
      simp only [hmem, hsame]
      omega

/-- What the queue holds is not listed yet. -/
theorem Sound.not_mem_listed {ids : List String} {edges : List Edge} {s : Listing} (hs : s.Sound ids edges)
    {id : String} (hready : id ∈ s.ready) : id ∉ s.listed := by
  intro hlisted
  exact List.disjoint_of_nodup_append hs.nodup hlisted hready

/-- What depends on an id of the queue has a dependency left to count. -/
theorem Sound.count_pos {ids : List String} {edges : List Edge} {s : Listing} (hs : s.Sound ids edges)
    (hids : ∀ e ∈ edges, e.source ∈ ids) {id x : String} (hready : id ∈ s.ready)
    (hx : (⟨x, id⟩ : Edge) ∈ edges) : 0 < s.count x := by
  rw [hs.count x (hids _ hx), List.countP_pos_iff]
  exact ⟨⟨x, id⟩, hx, by simp [hs.not_mem_listed hready]⟩

/-- All dependencies of an id of the queue are listed. -/
theorem Sound.target_mem_listed {ids : List String} {edges : List Edge} {s : Listing} (hs : s.Sound ids edges)
    {e : Edge} (hready : e.source ∈ s.ready) (he : e ∈ edges) : e.target ∈ s.listed := by
  have hmem : e.source ∈ s.listed ++ s.ready := List.mem_append_right _ hready
  have hid : e.source ∈ ids := hs.known _ hmem
  have hnone : s.count e.source = 0 := (hs.free _ hid).2 hmem
  by_contra ht
  rw [hs.count _ hid, List.countP_eq_zero] at hnone
  exact hnone e he (by simp [ht])

/-- A step lists the first id of the queue and takes one from the count of each id that depends on it; those that
wait for nothing else come to the end of the queue. -/
theorem Sound.exists_step {ids : List String} {edges : List Edge} {s : Listing} (hs : s.Sound ids edges)
    (he : edges.Nodup) (hids : ∀ e ∈ edges, e.source ∈ ids) {id : String} {ready : List String}
    (hready : s.ready = id :: ready) : ∃ sources : List String, sources.Nodup ∧
      (∀ x, x ∈ sources ↔ (⟨x, id⟩ : Edge) ∈ edges) ∧ (s.step edges).listed = s.listed ++ [id] ∧
      (s.step edges).ready = ready ++ sources.filter (s.count · = 1) ∧
      ∀ x, (s.step edges).count x = if x ∈ sources then s.count x - 1 else s.count x := by
  have hnodup := nodup_sources he id
  have hpos : ∀ x ∈ (edges.filter (·.target = id)).map (·.source), 0 < s.count x :=
    fun x hx => hs.count_pos hids (by simp [hready]) (mem_sources.1 hx)
  refine ⟨_, hnodup, fun _ => mem_sources, ?_⟩
  rw [Listing.step, hready]
  exact ⟨listed_foldl_release _ _, ready_foldl_release hnodup { s with ready, listed := s.listed ++ [id] } hpos,
    count_foldl_release hnodup { s with ready, listed := s.listed ++ [id] }⟩

/-- A step keeps the invariant. -/
theorem Sound.step {ids : List String} {edges : List Edge} {s : Listing} (hs : s.Sound ids edges)
    (he : edges.Nodup) (hids : ∀ e ∈ edges, e.source ∈ ids) : (s.step edges).Sound ids edges := by
  cases hready : s.ready with
  | nil =>
    rw [Listing.step, hready]
    exact hs
  | cons id ready =>
    obtain ⟨sources, hnodup, hsources, hlisted, hqueue, hcount⟩ := hs.exists_step he hids hready
    have hfirst : id ∈ s.ready := by simp [hready]
    have hpos : ∀ x ∈ sources, 0 < s.count x := fun x hx => hs.count_pos hids hfirst ((hsources x).1 hx)
    have hsourceIds : ∀ x ∈ sources, x ∈ ids := fun x hx => hids _ ((hsources x).1 hx)
    have hsplit : (s.step edges).listed ++ (s.step edges).ready =
        (s.listed ++ s.ready) ++ sources.filter (s.count · = 1) := by
      rw [hlisted, hqueue, hready]
      simp
    exact {
      nodup := by
        rw [hsplit]
        refine List.nodup_append.2 ⟨hs.nodup, hnodup.filter _, ?_⟩
        rintro x hold _ hnew rfl
        have hin : x ∈ sources := (List.mem_filter.1 hnew).1
        have hzero := (hs.free x (hsourceIds x hin)).2 hold
        exact absurd hzero (hpos x hin).ne'
      known := by
        rw [hsplit]
        intro x hx
        rcases List.mem_append.1 hx with hx | hx
        · exact hs.known x hx
        · exact hsourceIds x (List.mem_filter.1 hx).1
      count := by
        intro x hx
        have hopen := countP_open_snoc he (hs.not_mem_listed hfirst) x
        rw [hcount, hlisted, hs.count x hx]
        simp only [hsources]
        split
        · rename_i hin
          rw [if_pos hin] at hopen
          omega
        · rename_i hin
          rw [if_neg hin] at hopen
          omega
      free := by
        intro x hx
        rw [hcount, hsplit, List.mem_append, ← hs.free x hx, List.mem_filter]
        split
        · rename_i hin
          have hp : 0 < s.count x := hpos x hin
          simp only [hin, true_and, decide_eq_true_eq]
          omega
        · rename_i hin
          simp [hin]
      ordered := by
        rw [hlisted]
        intro past x future heq e hin hsrc
        rcases List.eq_nil_or_concat future with rfl | ⟨future, last, rfl⟩
        · -- the id at the end is the one that was first in the queue
          obtain ⟨hpast, hx⟩ := List.append_inj' heq rfl
          have hx : id = x := by simpa using hx
          rw [← hpast]
          exact hs.target_mem_listed (hsrc.trans hx.symm ▸ hfirst) hin
        · have heq' : s.listed ++ [id] = (past ++ x :: future) ++ [last] := by simpa using heq
          exact hs.ordered past x future (List.append_inj' heq' rfl).1 e hin hsrc }

theorem length_listed_step {edges : List Edge} {s : Listing} (h : s.ready ≠ []) :
    (s.step edges).listed.length = s.listed.length + 1 := by
  unfold Listing.step
  split
  · rename_i hnil
    exact absurd hnil h
  · rw [listed_foldl_release]
    simp

/-! ### All stages -/

theorem Sound.run {ids : List String} {edges : List Edge} (he : edges.Nodup)
    (hids : ∀ e ∈ edges, e.source ∈ ids) (n : ℕ) {s : Listing} (hs : s.Sound ids edges) :
    (s.run edges n).Sound ids edges := by
  induction n generalizing s with
  | zero => exact hs
  | succ n ih =>
    unfold Listing.run
    split
    · exact hs
    · exact ih (hs.step he hids)

/-- As long as the queue does not run empty, every step lists an id. -/
theorem ready_run_or (edges : List Edge) (n : ℕ) (s : Listing) :
    (s.run edges n).ready = [] ∨ (s.run edges n).listed.length = s.listed.length + n := by
  induction n generalizing s with
  | zero => exact Or.inr rfl
  | succ n ih =>
    unfold Listing.run
    split
    · rename_i h
      exact Or.inl (List.isEmpty_iff.1 h)
    · rename_i h
      have hne : s.ready ≠ [] := fun e => h (List.isEmpty_iff.2 e)
      rcases ih (s.step edges) with hr | hr
      · exact Or.inl hr
      · rw [length_listed_step hne] at hr
        exact Or.inr (by omega)

end Listing

open Listing

theorem count_startListing {g : Graph N} {id : String} (h : id ∈ g.ids) :
    g.startListing.count id = g.properEdges.countP (·.source = id) := by
  have hlookup : ∀ l : List String, id ∈ l →
      (l.map fun x => (x, g.properEdges.countP (·.source = x))).lookup id
        = some (g.properEdges.countP (·.source = id)) := by
    intro l hl
    induction l with
    | nil => cases hl
    | cons a l ih =>
      rw [List.map_cons, List.lookup_cons]
      by_cases ha : id = a
      · subst ha
        simp
      · have hb : (id == a) = false := by simpa using ha
        rw [hb]
        exact ih ((List.mem_cons.1 hl).resolve_left ha)
  show (List.lookup id (g.ids.map _)).getD 0 = _
  rw [hlookup g.ids h]
  rfl

theorem mem_ready_startListing {g : Graph N} {id : String} :
    id ∈ g.startListing.ready ↔ id ∈ g.ids ∧ g.properEdges.countP (·.source = id) = 0 := by
  simp [startListing]

theorem sound_startListing (g : Graph N) : g.startListing.Sound g.ids g.properEdges := by
  have hready : g.startListing.ready.Sublist g.ids := by
    have h : g.startListing.ready
        = ((g.ids.map fun id => (id, g.properEdges.countP (·.source = id))).filter (·.2 = 0)).map (·.1) := rfl
    have hids : g.ids
        = (g.ids.map fun id => (id, g.properEdges.countP (·.source = id))).map (·.1) := by
      simp [Function.comp_def]
    rw [h]
    conv_rhs => rw [hids]
    exact List.filter_sublist.map _
  exact {
    nodup := hready.nodup g.ids_nodup
    known := fun id hid => hready.subset hid
    count := by
      intro id hid
      rw [count_startListing hid]
      exact List.countP_congr fun e _ => by simp [startListing]
    free := by
      intro id hid
      rw [count_startListing hid]
      show _ ↔ id ∈ [] ++ g.startListing.ready
      rw [List.nil_append, mem_ready_startListing]
      exact (and_iff_right hid).symm
    ordered := by
      intro past id future h
      simp [startListing] at h }

theorem sound_finalListing (g : Graph N) : g.finalListing.Sound g.ids g.properEdges :=
  (sound_startListing g).run g.properEdges_nodup (fun _ he => (mem_properEdges.1 he).2.1) g.size

theorem length_ids (g : Graph N) : g.ids.length = g.size := List.length_map _

/-- In the end the queue is empty. -/
theorem ready_finalListing (g : Graph N) : g.finalListing.ready = [] := by
  have hs := sound_finalListing g
  rcases ready_run_or g.properEdges g.size g.startListing with h | h
  · exact h
  · -- as many ids are listed as there are, so none is left for the queue
    have hlisted : g.finalListing.listed.length = g.size := by
      rw [finalListing, h]
      exact Nat.zero_add _
    have hle := (hs.nodup.subperm hs.known).length_le
    rw [List.length_append, hlisted, length_ids] at hle
    exact List.length_eq_zero_iff.1 (by omega)

theorem mem_listed_iff {g : Graph N} {id : String} (h : id ∈ g.ids) :
    id ∈ g.finalListing.listed ↔ g.finalListing.count id = 0 := by
  rw [(sound_finalListing g).free id h, ready_finalListing, List.append_nil]

theorem listed_nodup (g : Graph N) : g.finalListing.listed.Nodup := by
  have h := (sound_finalListing g).nodup
  rwa [ready_finalListing, List.append_nil] at h

theorem listed_subset (g : Graph N) : g.finalListing.listed ⊆ g.ids :=
  fun id hid => (sound_finalListing g).known id (List.mem_append_left _ hid)

/-- The listing is complete exactly if every id is listed. -/
theorem length_listed_eq_iff (g : Graph N) :
    g.finalListing.listed.length = g.size ↔ ∀ id ∈ g.ids, id ∈ g.finalListing.listed := by
  rw [← length_ids]
  constructor
  · intro h id hid
    have hperm := ((listed_nodup g).subperm (listed_subset g)).perm_of_length_le (by omega)
    exact hperm.mem_iff.2 hid
  · intro h
    have h1 := ((listed_nodup g).subperm (listed_subset g)).length_le
    have h2 := (List.Nodup.subperm g.ids_nodup h).length_le
    exact Nat.le_antisymm h1 h2

/-- Whatever is listed comes after all it depends on. -/
theorem idxOf_lt_of_dependsOn {g : Graph N} {a b : String} (ha : a ∈ g.finalListing.listed)
    (h : g.DependsOn a b) : g.finalListing.listed.idxOf b < g.finalListing.listed.idxOf a := by
  obtain ⟨past, future, hsplit⟩ := List.append_of_mem ha
  have hb : b ∈ past := (sound_finalListing g).ordered past a future hsplit _ h rfl
  have hna : a ∉ past := by
    intro hin
    have hn := listed_nodup g
    rw [hsplit] at hn
    exact List.disjoint_of_nodup_append hn hin List.mem_cons_self
  rw [hsplit, List.idxOf_append_of_mem hb, List.idxOf_append_of_notMem hna]
  have := List.idxOf_lt_length_of_mem hb
  omega

/-- What is listed is followed only by what is listed before it. -/
theorem idxOf_lt_of_transGen {g : Graph N} {a b : String} (ha : a ∈ g.finalListing.listed)
    (h : TransGen g.DependsOn a b) :
    b ∈ g.finalListing.listed ∧ g.finalListing.listed.idxOf b < g.finalListing.listed.idxOf a := by
  have hstep : ∀ {x y : String}, x ∈ g.finalListing.listed → g.DependsOn x y →
      y ∈ g.finalListing.listed ∧ g.finalListing.listed.idxOf y < g.finalListing.listed.idxOf x := by
    intro x y hx hxy
    have hlt := idxOf_lt_of_dependsOn hx hxy
    exact ⟨List.idxOf_lt_length_iff.1 (hlt.trans (List.idxOf_lt_length_of_mem hx)), hlt⟩
  induction h with
  | single hab => exact hstep ha hab
  | tail _ hbc ih =>
    obtain ⟨hc, hlt⟩ := hstep ih.1 hbc
    exact ⟨hc, hlt.trans ih.2⟩

/-- Among ids of which none depends on itself in the end, the relation of dependence can be followed by
induction. -/
theorem wellFounded_of_forall {g : Graph N} {P : String → Prop} (hids : ∀ id, P id → id ∈ g.ids)
    (h : ∀ id, P id → ¬ TransGen g.DependsOn id id) :
    WellFounded fun a b : { id // P id } => TransGen g.DependsOn b.1 a.1 := by
  have : Finite { id // P id } := ((List.finite_toSet g.ids).subset hids).to_subtype
  have : IsTrans { id // P id } fun a b => TransGen g.DependsOn b.1 a.1 :=
    ⟨fun _ _ _ hab hbc => hbc.trans hab⟩
  have : Std.Irrefl fun a b : { id // P id } => TransGen g.DependsOn b.1 a.1 :=
    ⟨fun a => h a.1 a.2⟩
  exact Finite.wellFounded_of_trans_of_irrefl _

/-- In a graph without cycles the relation of dependence can be followed by induction. -/
theorem Acyclic.wellFounded {g : Graph N} (h : g.Acyclic) :
    WellFounded fun a b : { id // id ∈ g.ids } => TransGen g.DependsOn b.1 a.1 :=
  wellFounded_of_forall (fun _ hid => hid) fun id _ => h id

/-- Whether a node lies on a cycle, or depends directly or through others on one that does. -/
def LeadsIntoCycle (g : Graph N) (id : String) : Prop :=
  ∃ turn, ReflTransGen g.DependsOn id turn ∧ TransGen g.DependsOn turn turn

theorem LeadsIntoCycle.mem_ids {g : Graph N} {id : String} (h : g.LeadsIntoCycle id) : id ∈ g.ids := by
  obtain ⟨turn, hpath, hturn⟩ := h
  obtain ⟨next, hnext, -⟩ := TransGen.head'_iff.1 (hturn.trans_right hpath)
  exact (mem_properEdges.1 hnext).2.1

theorem acyclic_iff_forall_not_leadsIntoCycle {g : Graph N} : g.Acyclic ↔ ∀ id ∈ g.ids, ¬ g.LeadsIntoCycle id := by
  constructor
  · rintro h id - ⟨turn, -, hturn⟩
    exact h turn hturn
  · intro h id hturn
    have hleads : g.LeadsIntoCycle id := ⟨id, .refl, hturn⟩
    exact h id hleads.mem_ids hleads

/-- **What is listed are the ids that do not lead into a cycle.**  Every other id has a dependency that is not
listed either, and among ids that lead into no cycle this comes to an end. -/
theorem mem_listed_iff_not_leadsIntoCycle {g : Graph N} {id : String} (hid : id ∈ g.ids) :
    id ∈ g.finalListing.listed ↔ ¬ g.LeadsIntoCycle id := by
  constructor
  · rintro hlisted ⟨turn, hpath, hturn⟩
    have hmem : turn ∈ g.finalListing.listed := by
      rcases reflTransGen_iff_eq_or_transGen.1 hpath with rfl | hpath
      · exact hlisted
      · exact (idxOf_lt_of_transGen hlisted hpath).1
    exact lt_irrefl _ (idxOf_lt_of_transGen hmem hturn).2
  · intro hfree
    have hwf := wellFounded_of_forall (g := g) (P := fun a => a ∈ g.ids ∧ ¬ g.LeadsIntoCycle a) (fun _ h => h.1)
      fun a h hturn => h.2 ⟨a, .refl, hturn⟩
    have key : ∀ a : { a // a ∈ g.ids ∧ ¬ g.LeadsIntoCycle a }, a.1 ∈ g.finalListing.listed := by
      intro a
      induction a using hwf.induction with
      | _ a ih =>
        obtain ⟨a, ha, hafree⟩ := a
        rw [mem_listed_iff ha, (sound_finalListing g).count a ha, List.countP_eq_zero]
        intro e he hopen
        simp only [decide_eq_true_eq] at hopen
        obtain ⟨rfl, hunlisted⟩ := hopen
        have hdep : g.DependsOn e.source e.target := he
        refine hunlisted (ih ⟨e.target, (mem_properEdges.1 he).2.2, ?_⟩ (TransGen.single hdep))
        rintro ⟨turn, hpath, hturn⟩
        exact hafree ⟨turn, hpath.head hdep, hturn⟩
    exact key ⟨id, hid, hfree⟩

/-! ### Order and validity -/

/-- **All ids can be ordered exactly if no node depends on itself in the end.** -/
theorem order_isOk_iff (g : Graph N) : (∃ l, g.order = .ok l) ↔ g.Acyclic := by
  have hall : (∃ l, g.order = .ok l) ↔ g.finalListing.listed.length = g.size := by
    unfold order
    dsimp only
    split
    · rename_i h
      exact ⟨fun _ => h, fun _ => ⟨_, rfl⟩⟩
    · rename_i h
      constructor
      · rintro ⟨l, hl⟩
        cases hl
      · intro hl
        exact absurd hl h
  rw [hall, length_listed_eq_iff, acyclic_iff_forall_not_leadsIntoCycle]
  exact forall₂_congr fun id hid => mem_listed_iff_not_leadsIntoCycle hid

theorem missingEnd_eq_none_iff {g : Graph N} {e : Edge} :
    g.missingEnd e = none ↔ e.source ∈ g.ids ∧ e.target ∈ g.ids := by
  simp [missingEnd, contains_iff]

/-- **A graph is valid exactly if no edge dangles and no node depends on itself in the end.** -/
theorem validate_eq_ok_iff (g : Graph N) :
    g.validate = .ok () ↔ (∀ e ∈ g.edges, e.source ∈ g.ids ∧ e.target ∈ g.ids) ∧ g.Acyclic := by
  unfold validate
  split
  · rename_i e m hsome
    refine ⟨fun h => absurd h (by simp), ?_⟩
    rintro ⟨hends, -⟩
    obtain ⟨x, hx, hm⟩ := List.exists_of_findSome?_eq_some hsome
    rw [missingEnd_eq_none_iff.2 (hends x hx)] at hm
    cases hm
  · rename_i hnone
    have hends : ∀ e ∈ g.edges, e.source ∈ g.ids ∧ e.target ∈ g.ids := by
      intro e he
      have hm := List.findSome?_eq_none_iff.1 hnone e he
      exact missingEnd_eq_none_iff.1 (Option.map_eq_none_iff.1 hm)
    rw [and_iff_right hends, ← order_isOk_iff]
    cases g.order with
    | error e => simp [Except.map]
    | ok l => simp [Except.map]

/-- In a valid graph every edge is a dependency. -/
theorem dependsOn_iff_of_validate {g : Graph N} (h : g.validate = .ok ()) {a b : String} :
    g.DependsOn a b ↔ (⟨a, b⟩ : Edge) ∈ g.edges := by
  rw [DependsOn, mem_properEdges]
  exact and_iff_left_of_imp (((validate_eq_ok_iff g).1 h).1 ⟨a, b⟩)

end Groundwork.Graph
