import Groundwork.Proofs.Data.Outcome
import Groundwork.Proofs.Template.Rewriting

/-!
# Substituting for tokens

What `mapExpressions` makes of a value depends on what its resolver says of the expressions in the value, and
on nothing else: it succeeds exactly if all of them resolve, and then the result is that of substituting
their values.

Main statements: a substitution succeeds if every expression resolves, and else fails with the error of one
(`settles_mapExpressions`); it succeeds in the same way with any resolver that agrees on them
(`mapExpressions_mono`); a pass that rewrites expressions in plain ones rewrites those that a value visits
(`visitExpressions_mapExpressions`).
-/

namespace Groundwork

namespace Template

/-! ### Agreement -/

section Agreement

variable {m : Type → Type} [Monad m] {r r' : String → m (Option Value)}

theorem renderSegments_congr {l : List Segment} (h : ∀ e ∈ expressions l, r e = r' e) :
    renderSegments r l = renderSegments r' l := by
  induction l with
  | nil => rfl
  | cons s l ih =>
    cases s with
    | text t =>
      rw [renderSegments, renderSegments, ih h]
      rfl
    | expr x =>
      rw [renderSegments, renderSegments, ih fun e he => h e (List.mem_cons_of_mem x he), renderSegment,
        renderSegment, h x List.mem_cons_self]

theorem single?_eq_some {l : List Segment} {e : String} (h : single? l = some e) : l = [.expr e] := by
  unfold single? at h
  split at h
  · cases h
    rfl
  · cases h

theorem mapText_congr {s : String} (h : ∀ e ∈ expressions (parse s), r e = r' e) :
    mapText r s = mapText r' s := by
  unfold mapText
  dsimp only
  split
  · split
    · rename_i x hsingle
      rw [h x (by rw [single?_eq_some hsingle]; exact List.mem_singleton.2 rfl)]
    · rw [renderSegments_congr h]
  · rfl

mutual

/-- A substitution depends on its resolver at the expressions of the value only. -/
theorem mapExpressions_congr : ∀ {v : Value}, (∀ e ∈ visitExpressions v, r e = r' e) →
    mapExpressions r v = mapExpressions r' v
  | .str s, h => by
    rw [mapExpressions, mapExpressions]
    exact mapText_congr h
  | .arr items, h => by rw [mapExpressions, mapExpressions, mapItems_congr h]
  | .obj fields, h => by rw [mapExpressions, mapExpressions, mapFields_congr h]
  | .null, h => rfl
  | .bool b, h => rfl
  | .num n, h => rfl

theorem mapItems_congr : ∀ {vs : List Value}, (∀ e ∈ visitExpressions.visitItems vs, r e = r' e) →
    mapExpressions.mapItems r vs = mapExpressions.mapItems r' vs
  | [], h => rfl
  | v :: vs, h => by
    rw [mapExpressions.mapItems, mapExpressions.mapItems,
      mapExpressions_congr fun e he => h e (List.mem_append_left _ he),
      mapItems_congr fun e he => h e (List.mem_append_right _ he)]

theorem mapFields_congr : ∀ {vs : List (String × Value)},
    (∀ e ∈ visitExpressions.visitFields vs, r e = r' e) →
    mapExpressions.mapFields r vs = mapExpressions.mapFields r' vs
  | [], h => rfl
  | (k, v) :: vs, h => by
    rw [mapExpressions.mapFields, mapExpressions.mapFields,
      mapExpressions_congr fun e he => h e (List.mem_append_left _ he),
      mapFields_congr fun e he => h e (List.mem_append_right _ he)]

end

end Agreement

/-! ### Success and failure -/

section Success

variable {ε α β : Type} {r r' : String → Except ε (Option Value)}

/-- Whether a computation stands and falls with expressions: all of them resolve if it succeeds, and if it
fails it is with the error of one. -/
def Settles (r : String → Except ε (Option Value)) (l : List String) : Except ε α → Prop
  | .ok _ => ∀ e ∈ l, ∃ x, r e = .ok x
  | .error err => ∃ e ∈ l, r e = .error err

theorem Settles.pure (r : String → Except ε (Option Value)) (a : α) :
    Settles r [] (Except.ok a) := fun _ he => by cases he

theorem Settles.bind {l l' : List String} {x : Except ε α} {f : α → Except ε β} (hx : Settles r l x)
    (hf : ∀ a, Settles r l' (f a)) : Settles r (l ++ l') (x >>= f) := by
  cases x with
  | error err =>
    obtain ⟨e, he, herr⟩ := hx
    exact ⟨e, List.mem_append_left _ he, herr⟩
  | ok a =>
    have hrest := hf a
    show Settles r (l ++ l') (f a)
    cases hfa : f a with
    | error err =>
      rw [hfa] at hrest
      obtain ⟨e, he, herr⟩ := hrest
      exact ⟨e, List.mem_append_right _ he, herr⟩
    | ok b =>
      rw [hfa] at hrest
      intro e he
      rcases List.mem_append.1 he with he | he
      · exact hx e he
      · exact hrest e he

theorem Settles.bind_pure {l : List String} {x : Except ε α} (hx : Settles r l x) (f : α → β) :
    Settles r l (x >>= fun a => Except.ok (f a)) := by
  rw [← List.append_nil l]
  exact hx.bind fun a => Settles.pure r (f a)

theorem settles_expression (r : String → Except ε (Option Value)) (e : String) : Settles r [e] (r e) := by
  cases hr : r e with
  | error err => exact ⟨e, List.mem_singleton.2 rfl, hr⟩
  | ok x =>
    intro e' he'
    rw [List.mem_singleton.1 he']
    exact ⟨x, hr⟩

theorem settles_renderSegments (r : String → Except ε (Option Value)) (l : List Segment) :
    Settles r (expressions l) (renderSegments r l) := by
  induction l with
  | nil => exact Settles.pure r _
  | cons s l ih =>
    cases s with
    | text t => exact ih.bind_pure _
    | expr e =>
      have hfirst : Settles r [e] (renderSegment r (.expr e)) := by
        rw [← List.append_nil [e]]
        refine (settles_expression r e).bind fun x => ?_
        cases x with
        | none => exact Settles.pure r _
        | some v => exact Settles.pure r _
      exact hfirst.bind fun first => ih.bind_pure _

theorem settles_mapText (r : String → Except ε (Option Value)) (s : String) :
    Settles r (expressions (parse s)) (mapText r s) := by
  unfold mapText
  dsimp only
  split
  · split
    · rename_i e hsingle
      rw [single?_eq_some hsingle]
      show Settles r ([e] ++ []) _
      refine (settles_expression r e).bind fun x => ?_
      cases x with
      | none => exact Settles.pure r _
      | some v => exact Settles.pure r _
    · exact (settles_renderSegments r (parse s)).bind_pure _
  · rename_i hnone
    have hempty : expressions (parse s) = [] := by
      simpa [hasExpressions] using hnone
    rw [hempty]
    exact Settles.pure r _

mutual

/-- **A substitution succeeds if every expression resolves, and fails with the error of one that does not.** -/
theorem settles_mapExpressions (r : String → Except ε (Option Value)) :
    ∀ v : Value, Settles r (visitExpressions v) (mapExpressions r v)
  | .str s => by
    rw [mapExpressions]
    exact settles_mapText r s
  | .arr items => by
    rw [mapExpressions]
    exact (settles_mapItems r items).bind_pure _
  | .obj fields => by
    rw [mapExpressions]
    exact (settles_mapFields r fields).bind_pure _
  | .null => Settles.pure r _
  | .bool _ => Settles.pure r _
  | .num _ => Settles.pure r _

theorem settles_mapItems (r : String → Except ε (Option Value)) :
    ∀ vs : List Value, Settles r (visitExpressions.visitItems vs) (mapExpressions.mapItems r vs)
  | [] => Settles.pure r _
  | v :: vs => by
    rw [mapExpressions.mapItems]
    exact (settles_mapExpressions r v).bind fun w => (settles_mapItems r vs).bind_pure _

theorem settles_mapFields (r : String → Except ε (Option Value)) :
    ∀ vs : List (String × Value), Settles r (visitExpressions.visitFields vs) (mapExpressions.mapFields r vs)
  | [] => Settles.pure r _
  | (k, v) :: vs => by
    rw [mapExpressions.mapFields]
    exact (settles_mapExpressions r v).bind fun w => (settles_mapFields r vs).bind_pure _

end

theorem exists_eq_ok_of_mapExpressions {v w : Value} (h : mapExpressions r v = .ok w) :
    ∀ e ∈ visitExpressions v, ∃ x, r e = .ok x := by
  have hsettles := settles_mapExpressions r v
  rw [h] at hsettles
  exact hsettles

theorem exists_eq_error_of_mapExpressions {v : Value} {err : ε} (h : mapExpressions r v = .error err) :
    ∃ e ∈ visitExpressions v, r e = .error err := by
  have hsettles := settles_mapExpressions r v
  rw [h] at hsettles
  exact hsettles

/-- **A substitution that succeeds does so in the same way with any resolver that agrees where it has to.** -/
theorem mapExpressions_mono {v w : Value} (h : mapExpressions r v = .ok w)
    (hr : ∀ e ∈ visitExpressions v, ∀ x, r e = .ok x → r' e = .ok x) : mapExpressions r' v = .ok w := by
  have hagree : ∀ e ∈ visitExpressions v, r' e = r e := by
    intro e he
    obtain ⟨x, hx⟩ := exists_eq_ok_of_mapExpressions h e he
    rw [hx]
    exact hr e he x hx
  rw [mapExpressions_congr hagree]
  exact h

end Success

/-! ### Rewriting -/

section Rewriting

variable {f : String → String} {r : String → Id (Option Value)}

/-- Whether a resolver puts another expression in the place of each token, or leaves the token alone. -/
def Rewrites (f : String → String) (r : String → Id (Option Value)) : Prop :=
  ∀ e, (r e = none ∧ f e = e) ∨ r e = some (.str (renderToken (f e)))

theorem renderSegments_of_rewrites (hr : Rewrites f r) (l : List Segment) :
    Id.run (renderSegments r l) = String.ofList (rewritten f l) := by
  induction l with
  | nil => rfl
  | cons s l ih =>
    cases s with
    | text t =>
      show t ++ Id.run (renderSegments r l) = _
      rw [ih]
      simp [rewritten]
    | expr e =>
      have hfirst : Id.run (renderSegment r (.expr e)) = renderToken (f e) := by
        rcases hr e with ⟨hnone, hsame⟩ | hsome
        · show Id.run (r e >>= _) = _
          rw [hnone, hsame]
          rfl
        · show Id.run (r e >>= _) = _
          rw [hsome]
          rfl
      show Id.run (renderSegment r (.expr e)) ++ Id.run (renderSegments r l) = _
      rw [hfirst, ih]
      simp [rewritten]

/-- What becomes of a text whose tokens are rewritten. -/
theorem mapText_of_rewrites (hr : Rewrites f r) (s : String) :
    Id.run (mapText r s)
      = .str (if hasExpressions (parse s) then String.ofList (rewritten f (parse s)) else s) := by
  unfold mapText
  dsimp only
  split
  · split
    · rename_i e hsingle
      rw [single?_eq_some hsingle, rewritten]
      show Id.run (r e >>= _) = _
      rcases hr e with ⟨hnone, hsame⟩ | hsome
      · rw [hnone, hsame]
        show Value.str (renderToken e) = _
        simp [rewritten]
      · rw [hsome]
        show Value.str (renderToken (f e)) = _
        simp [rewritten]
    · show Value.str (Id.run (renderSegments r (parse s))) = _
      rw [renderSegments_of_rewrites hr]
  · rfl

theorem visitExpressions_mapText (hr : Rewrites f r) {s : String}
    (h : ∀ e ∈ expressions (parse s), Plain (f e)) :
    visitExpressions (Id.run (mapText r s)) = (expressions (parse s)).map f := by
  rw [mapText_of_rewrites hr, visitExpressions]
  split
  · rw [parse_rewritten h, expressions_map_rewriteSegment]
  · rename_i hnone
    have hempty : expressions (parse s) = [] := by
      simpa [hasExpressions] using hnone
    rw [hempty]
    rfl

mutual

/-- **Rewriting expressions in plain ones rewrites those that a value visits.** -/
theorem visitExpressions_mapExpressions (hr : Rewrites f r) : ∀ {v : Value},
    (∀ e ∈ visitExpressions v, Plain (f e)) →
    visitExpressions (Id.run (mapExpressions r v)) = (visitExpressions v).map f
  | .str s, h => by
    rw [mapExpressions]
    exact visitExpressions_mapText hr h
  | .arr items, h => by
    rw [mapExpressions]
    exact visitItems_mapItems hr h
  | .obj fields, h => by
    rw [mapExpressions]
    exact visitFields_mapFields hr h
  | .null, h => rfl
  | .bool b, h => rfl
  | .num n, h => rfl

theorem visitItems_mapItems (hr : Rewrites f r) : ∀ {vs : List Value},
    (∀ e ∈ visitExpressions.visitItems vs, Plain (f e)) →
    visitExpressions.visitItems (Id.run (mapExpressions.mapItems r vs))
      = (visitExpressions.visitItems vs).map f
  | [], h => rfl
  | v :: vs, h => by
    rw [mapExpressions.mapItems]
    show visitExpressions (Id.run (mapExpressions r v))
      ++ visitExpressions.visitItems (Id.run (mapExpressions.mapItems r vs)) = _
    rw [visitExpressions_mapExpressions hr fun e he => h e (List.mem_append_left _ he),
      visitItems_mapItems hr fun e he => h e (List.mem_append_right _ he), ← List.map_append]
    rfl

theorem visitFields_mapFields (hr : Rewrites f r) : ∀ {vs : List (String × Value)},
    (∀ e ∈ visitExpressions.visitFields vs, Plain (f e)) →
    visitExpressions.visitFields (Id.run (mapExpressions.mapFields r vs))
      = (visitExpressions.visitFields vs).map f
  | [], h => rfl
  | (k, v) :: vs, h => by
    rw [mapExpressions.mapFields]
    show visitExpressions (Id.run (mapExpressions r v))
      ++ visitExpressions.visitFields (Id.run (mapExpressions.mapFields r vs)) = _
    rw [visitExpressions_mapExpressions hr fun e he => h e (List.mem_append_left _ he),
      visitFields_mapFields hr fun e he => h e (List.mem_append_right _ he), ← List.map_append]
    rfl

end

end Rewriting

end Template

end Groundwork
