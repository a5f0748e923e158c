import Groundwork.Proofs.Graph.Order

/-!
# The order of a graph, or what is left of it

The ids of a graph are listed in a loop that goes on as long as its queue holds one, and counts down what is left of
the dependencies of others.  The loop comes to its end after one round for each id that it lists (`Listing.Ends`),
and no count is ever taken below zero.  What it cannot list are the ids that lead into a cycle.

Main statements: the loop ends (`Listing.Sound.ends`); the order of a graph is there exactly if it has no cycle, and
then it has each id once and after its dependencies, while a failure tells all ids that lead into a cycle
(`order_exact`).
-/

namespace Groundwork.Graph

open Relation

variable {N : Type} [Identified N]

namespace Listing

variable {ids : List String} {edges : List Edge} {s : Listing}

/-! ### Counting down -/

/-- Counts one dependency of an id as listed, if there is one left to count. -/
def release? (s : Listing) (id : String) : Option Listing :=
  if s.count id = 0 then none else some (s.release id)

/-- Lists the first id of the queue, if what depends on it has dependencies left to count. -/
def step? (edges : List Edge) (s : Listing) : Option Listing :=
  match s.ready with
  | [] => some s
  | id :: ready =>
      ((edges.filter (·.target = id)).map (·.source)).foldlM release?
        { s with ready, listed := s.listed ++ [id] }

theorem foldlM_release? {l : List String} (hl : l.Nodup) (s : Listing) (hs : ∀ x ∈ l, 0 < s.count x) :
    l.foldlM release? s = some (l.foldl release s) := by
  induction l generalizing s with
  | nil => rfl
  | cons id l ih =>
    obtain ⟨hid, hl⟩ := List.nodup_cons.1 hl
    have hpos : s.count id ≠ 0 := (hs id List.mem_cons_self).ne'
    have hrest : ∀ x ∈ l, 0 < (s.release id).count x := by
      intro x hx
      have hne : x ≠ id := fun e => hid (e ▸ hx)
      rw [count_release, if_neg hne]
      exact hs x (List.mem_cons_of_mem id hx)
    rw [List.foldlM_cons, release?, if_neg hpos]
    exact ih hl (s.release id) hrest

/-- **A step takes no count below zero.** -/
theorem Sound.step?_eq (hs : s.Sound ids edges) (he : edges.Nodup) (hids : ∀ e ∈ edges, e.source ∈ ids) :
    s.step? edges = some (s.step edges) := by
  unfold step? Listing.step
  cases hready : s.ready with
  | nil => rfl
  | cons id ready =>
    have hfirst : id ∈ s.ready := by simp [hready]
    exact foldlM_release? (nodup_sources he id) _ fun x hx => hs.count_pos hids hfirst (mem_sources.1 hx)

/-! ### The loop -/

/-- Whether the loop that lists ids as long as the queue holds one comes from a stage to another, where it ends, after
so many rounds, and takes no count below zero. -/
inductive Ends (edges : List Edge) : Listing → ℕ → Listing → Prop
  | done {s : Listing} (empty : s.ready = []) : Ends edges s 0 s
  | round {s next last : Listing} {rounds : ℕ} (waiting : s.ready ≠ []) (counted : s.step? edges = some next)
      (rest : Ends edges next rounds last) : Ends edges s (rounds + 1) last

/-- **If steps empty the queue, the loop ends there**, after as many rounds as it has listed ids. -/
theorem Sound.ends (hs : s.Sound ids edges) (he : edges.Nodup) (hids : ∀ e ∈ edges, e.source ∈ ids) (n : ℕ)
    (hempty : (s.run edges n).ready = []) :
    ∃ rounds, Ends edges s rounds (s.run edges n) ∧
      (s.run edges n).listed.length = s.listed.length + rounds := by
  induction n generalizing s with
  | zero => exact ⟨0, .done hempty, rfl⟩
  | succ n ih =>
    rw [Listing.run] at hempty ⊢
    split
    · rename_i h
      exact ⟨0, .done (List.isEmpty_iff.1 h), rfl⟩
    · rename_i h
      have hwaiting : s.ready ≠ [] := fun e => h (List.isEmpty_iff.2 e)
      rw [if_neg h] at hempty
      obtain ⟨rounds, hends, hlength⟩ := ih (hs.step he hids) hempty
      rw [length_listed_step hwaiting] at hlength
      exact ⟨rounds + 1, .round hwaiting (hs.step?_eq he hids) hends, by omega⟩

end Listing

/-! ### The order -/

/-- What is said of a list of the ids of a graph in order: each is there once, after all that it depends on. -/
structure Ordered (g : Graph N) (l : List String) : Prop where
  once : l.Nodup
  all : ∀ id, id ∈ l ↔ id ∈ g.ids
  after : ∀ past id later, l = past ++ id :: later → ∀ b, g.DependsOn id b → b ∈ past

/-- What is said of the ids that are left over: they are those that lead into a cycle, as they stand in the graph. -/
structure Left (g : Graph N) (l : List String) : Prop where
  inOrder : l.Sublist g.ids
  exact : ∀ id, id ∈ l ↔ g.LeadsIntoCycle id

theorem ordered_listed {g : Graph N} (h : g.finalListing.listed.length = g.size) : g.Ordered g.finalListing.listed where
  once := listed_nodup g
  all := fun id => ⟨fun hid => listed_subset g hid, (length_listed_eq_iff g).1 h id⟩
  after := fun past id later hsplit b hb => (sound_finalListing g).ordered past id later hsplit ⟨id, b⟩ hb rfl

/-- What counts as not listed leads into a cycle. -/
theorem left_counted (g : Graph N) : g.Left (g.ids.filter fun id => 0 < g.finalListing.count id) where
  inOrder := List.filter_sublist
  exact := by
    intro id
    rw [List.mem_filter, decide_eq_true_iff]
    constructor
    · rintro ⟨hid, hcount⟩
      by_contra hfree
      have hzero := (mem_listed_iff hid).1 ((mem_listed_iff_not_leadsIntoCycle hid).2 hfree)
      omega
    · intro hleads
      refine ⟨hleads.mem_ids, Nat.pos_of_ne_zero fun hzero => ?_⟩
      exact (mem_listed_iff_not_leadsIntoCycle hleads.mem_ids).1 ((mem_listed_iff hleads.mem_ids).2 hzero) hleads

/-- **The ids of a graph can be ordered exactly if no node depends on itself in the end.**  The order has each of them
once, after all that it depends on, and a failure names those that lead into a cycle, as they stand in the graph.
Either way the loop ends, after at most one round for each node, and takes no count below zero. -/
theorem order_exact (g : Graph N) :
    ((∃ l, g.order = .ok l) ↔ g.Acyclic) ∧
      (match g.order with
        | .ok l => g.Ordered l
        | .error e => ∃ left, e = .cycle left ∧ g.Left left) ∧
      ∃ rounds ≤ g.size, Listing.Ends g.properEdges g.startListing rounds g.finalListing := by
  refine ⟨order_isOk_iff g, ?_, ?_⟩
  · unfold order
    by_cases h : g.finalListing.listed.length = g.size
    · rw [if_pos h]
      exact ordered_listed h
    · rw [if_neg h]
      exact ⟨_, rfl, left_counted g⟩
  · obtain ⟨rounds, hends, hlength⟩ := (sound_startListing g).ends g.properEdges_nodup
      (fun _ he => (mem_properEdges.1 he).2.1) g.size (ready_finalListing g)
    have hle := ((listed_nodup g).subperm (listed_subset g)).length_le
    have hstart : g.startListing.listed.length = 0 := rfl
    have hlisted : g.finalListing.listed.length = g.startListing.listed.length + rounds := hlength
    rw [length_ids] at hle
    exact ⟨rounds, by omega, hends⟩

end Groundwork.Graph
