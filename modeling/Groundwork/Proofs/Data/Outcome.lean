import Mathlib.Data.List.Forall2

/-!
# Computations that may fail

A computation that succeeds has come through all of its steps.

Main statements: the steps of a sequence (`bind_eq_ok`, and with a state `run_bind_of_ok`), of a fold
(`of_foldlM_eq_ok`) and of a map (`exists_of_mem_mapM`, `exists_mapM_of_forall`).
-/

namespace Groundwork

/-- What a computation gives that succeeds came through every step. -/
theorem bind_eq_ok {ε α β : Type} {x : Except ε α} {f : α → Except ε β} {b : β} (h : x >>= f = .ok b) :
    ∃ a, x = .ok a ∧ f a = .ok b := by
  cases x with
  | error e => cases h
  | ok a => exact ⟨a, rfl, h⟩

/-- A computation that succeeds gives what it would give by default. -/
theorem eq_ok_getD {ε α : Type} {x : Except ε α} (h : x.toOption.isSome = true) (a : α) :
    x = .ok (x.toOption.getD a) := by
  cases x with
  | error e => cases h
  | ok b => rfl

/-- Two computations that succeed have results with what holds of those by default. -/
theorem exists_eq_ok_and {ε δ α β : Type} {x : Except ε α} {y : Except δ β} {P : α → β → Prop} (a : α) (b : β)
    (h : x.toOption.isSome ∧ y.toOption.isSome ∧ P (x.toOption.getD a) (y.toOption.getD b)) :
    ∃ u v, x = .ok u ∧ y = .ok v ∧ P u v :=
  ⟨_, _, eq_ok_getD h.1 a, eq_ok_getD h.2.1 b, h.2.2⟩

section Runs

variable {ε σ α β : Type} {x : ExceptT ε (StateM σ) α} {f : α → ExceptT ε (StateM σ) β} {s s' : σ}

/-- A computation with a state goes on from the state that the first step leaves. -/
theorem run_bind_of_ok {a : α} (h : x.run.run s = (.ok a, s')) : (x >>= f).run.run s = (f a).run.run s' := by
  simp only [ExceptT.run_bind, StateT.run_bind, h]
  rfl

/-- It ends where the first step ends with an error. -/
theorem run_bind_of_error {cause : ε} (h : x.run.run s = (.error cause, s')) :
    (x >>= f).run.run s = (.error cause, s') := by
  simp only [ExceptT.run_bind, StateT.run_bind, h]
  rfl

end Runs

section Lists

variable {ε α β γ : Type}

/-- What each step of a fold keeps, the fold keeps. -/
theorem of_foldlM_eq_ok {P : β → Prop} {f : β → α → Except ε β} {l : List α} {b c : β}
    (step : ∀ a ∈ l, ∀ x y, P x → f x a = .ok y → P y) (hb : P b) (h : l.foldlM f b = .ok c) : P c := by
  induction l generalizing b with
  | nil =>
    cases h
    exact hb
  | cons a l ih =>
    rw [List.foldlM_cons] at h
    obtain ⟨x, hx, h⟩ := bind_eq_ok h
    exact ih (fun a' ha' => step a' (List.mem_cons_of_mem a ha')) (step a List.mem_cons_self b x hb hx) h

/-- Each step of a sequence has succeeded. -/
theorem of_forM_eq_ok {f : α → Except ε Unit} {l : List α} (h : l.forM f = .ok ()) : ∀ a ∈ l, f a = .ok () := by
  induction l with
  | nil => exact fun _ ha => absurd ha List.not_mem_nil
  | cons a l ih =>
    obtain ⟨⟨⟩, hfirst, hrest⟩ := bind_eq_ok h
    exact List.forall_mem_cons.2 ⟨hfirst, ih hrest⟩

/-- Every result of a map was given for some item. -/
theorem exists_of_mem_mapM {f : α → Except ε β} {l : List α} {bs : List β} (h : l.mapM f = .ok bs) {b : β}
    (hb : b ∈ bs) : ∃ a ∈ l, f a = .ok b := by
  induction l generalizing bs with
  | nil =>
    rw [List.mapM_nil] at h
    cases h
    cases hb
  | cons a l ih =>
    rw [List.mapM_cons] at h
    obtain ⟨x, hx, h⟩ := bind_eq_ok h
    obtain ⟨xs, hxs, h⟩ := bind_eq_ok h
    cases h
    rcases List.mem_cons.1 hb with rfl | hb
    · exact ⟨a, List.mem_cons_self, hx⟩
    · obtain ⟨a', ha', hfa'⟩ := ih hxs hb
      exact ⟨a', List.mem_cons_of_mem a ha', hfa'⟩

/-- Where each step of one map has a counterpart in another, the maps have corresponding results. -/
theorem exists_mapM_of_forall {R : β → γ → Prop} {f : α → Except ε β} {f' : α → Except ε γ} {l : List α}
    {bs : List β} (step : ∀ a ∈ l, ∀ b, f a = .ok b → ∃ c, f' a = .ok c ∧ R b c) (h : l.mapM f = .ok bs) :
    ∃ cs, l.mapM f' = .ok cs ∧ List.Forall₂ R bs cs := by
  induction l generalizing bs with
  | nil =>
    rw [List.mapM_nil] at h
    cases h
    exact ⟨[], rfl, .nil⟩
  | cons a l ih =>
    rw [List.mapM_cons] at h
    obtain ⟨b, hb, h⟩ := bind_eq_ok h
    obtain ⟨bs', hbs, h⟩ := bind_eq_ok h
    cases h
    obtain ⟨c, hc, hbc⟩ := step a List.mem_cons_self b hb
    obtain ⟨cs, hcs, hrest⟩ := ih (fun x hx => step x (List.mem_cons_of_mem a hx)) hbs
    refine ⟨c :: cs, ?_, .cons hbc hrest⟩
    rw [List.mapM_cons, hc, hcs]
    rfl

end Lists

end Groundwork
