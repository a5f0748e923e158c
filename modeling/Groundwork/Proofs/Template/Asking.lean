import Groundwork.Proofs.Template.Composition

/-!
# What a pass asks for

A pass over a value walks through it, and so does a visit, which lists the expressions.  The two walks are one: in any
monad a pass is the same as asking for the expressions of the visit, one after the other, and then putting in the
answers.  Whatever a resolver remembers, and wherever it fails, what it was asked for can be read off the visit.

Main statements: a pass asks first and puts in then (`mapExpressions_eq`), the answers change texts only
(`sameShape_filled`), and a resolver that takes notes finds that it was asked for what a visit lists, up to the
expression that it failed for (`calls_of_pass`).
-/

namespace Groundwork.Template

/-! ### Values with answers put in -/

/-- A value with the answers for its expressions put in, from left to right. -/
def filled : Value → List (Option Value) → Value
  | .str s, xs => answered s xs
  | .arr items, xs => .arr (filledItems items xs)
  | .obj fields, xs => .obj (filledFields fields xs)
  | v, _ => v
where
  /-- The same for the items of an array. -/
  filledItems : List Value → List (Option Value) → List Value
    | [], _ => []
    | v :: vs, xs =>
        let n := (visitExpressions v).length
        filled v (xs.take n) :: filledItems vs (xs.drop n)
  /-- The same for the fields of an object. -/
  filledFields : List (String × Value) → List (Option Value) → List (String × Value)
    | [], _ => []
    | (k, v) :: fields, xs =>
        let n := (visitExpressions v).length
        (k, filled v (xs.take n)) :: filledFields fields (xs.drop n)

section Asking

variable {m : Type → Type} [Monad m] [LawfulMonad m]

/-- What comes after some questions may count on one answer for each. -/
theorem bind_mapM_congr {α β γ : Type} {r : α → m β} {l : List α} {f g : List β → m γ}
    (h : ∀ xs, xs.length = l.length → f xs = g xs) : l.mapM r >>= f = l.mapM r >>= g := by
  induction l generalizing f g with
  | nil => rw [List.mapM_nil, pure_bind, pure_bind, h [] rfl]
  | cons a l ih =>
    rw [List.mapM_cons, bind_assoc, bind_assoc]
    refine congrArg (r a >>= ·) (funext fun x => ?_)
    rw [bind_assoc, bind_assoc]
    refine ih fun xs hxs => ?_
    rw [pure_bind, pure_bind, h (x :: xs) (congrArg Nat.succ hxs)]

variable (r : String → m (Option Value))

mutual

/-- **A pass asks for the expressions of a visit, in that order, and then puts in the answers.** -/
theorem mapExpressions_eq : ∀ v : Value,
    mapExpressions r v = (visitExpressions v).mapM r >>= fun xs => pure (filled v xs)
  | .str s => by
    rw [mapExpressions]
    exact mapText_eq r s
  | .arr items => by
    rw [mapExpressions, mapItems_eq items, bind_assoc]
    simp only [pure_bind]
    rfl
  | .obj fields => by
    rw [mapExpressions, mapFields_eq fields, bind_assoc]
    simp only [pure_bind]
    rfl
  | .null => (pure_bind [] fun _ => pure Value.null).symm
  | .bool b => (pure_bind [] fun _ => pure (Value.bool b)).symm
  | .num n => (pure_bind [] fun _ => pure (Value.num n)).symm

theorem mapItems_eq : ∀ vs : List Value, mapExpressions.mapItems r vs
    = (visitExpressions.visitItems vs).mapM r >>= fun xs => pure (filled.filledItems vs xs)
  | [] => by
    rw [visitExpressions.visitItems, List.mapM_nil, pure_bind]
    rfl
  | v :: vs => by
    rw [mapExpressions.mapItems, visitExpressions.visitItems, List.mapM_append, mapExpressions_eq v, mapItems_eq vs,
      bind_assoc, bind_assoc]
    -- the first item takes as many answers as it has expressions
    refine bind_mapM_congr fun xs hxs => ?_
    simp only [bind_assoc, pure_bind, filled.filledItems, ← hxs, List.take_left, List.drop_left]

theorem mapFields_eq : ∀ fields : List (String × Value), mapExpressions.mapFields r fields
    = (visitExpressions.visitFields fields).mapM r >>= fun xs => pure (filled.filledFields fields xs)
  | [] => by
    rw [visitExpressions.visitFields, List.mapM_nil, pure_bind]
    rfl
  | (k, v) :: fields => by
    rw [mapExpressions.mapFields, visitExpressions.visitFields, List.mapM_append, mapExpressions_eq v,
      mapFields_eq fields, bind_assoc, bind_assoc]
    refine bind_mapM_congr fun xs hxs => ?_
    simp only [bind_assoc, pure_bind, filled.filledFields, ← hxs, List.take_left, List.drop_left]

end

end Asking

/-! ### Shapes -/

/-- Whether a value may stand in the place of a text after a pass: a text without tokens is left as it is, and only
one that is exactly one token may become anything else than a text. -/
structure Becomes (s : String) (w : Value) : Prop where
  plain : expressions (parse s) = [] → w = .str s
  text : (∀ e, parse s ≠ [.expr e]) → ∃ t, w = .str t

/-- Whether a value is another one with something else in the places of its texts. -/
inductive SameShape : Value → Value → Prop
  | null : SameShape .null .null
  | bool (b : Bool) : SameShape (.bool b) (.bool b)
  | num (n : Number) : SameShape (.num n) (.num n)
  | str {s : String} {w : Value} (h : Becomes s w) : SameShape (.str s) w
  | arr {vs ws : List Value} (items : List.Forall₂ SameShape vs ws) : SameShape (.arr vs) (.arr ws)
  | obj {fields fields' : Table Value} (keys : fields'.keys = fields.keys)
      (values : List.Forall₂ SameShape fields.values fields'.values) : SameShape (.obj fields) (.obj fields')

theorem becomes_answered (s : String) (xs : List (Option Value)) : Becomes s (answered s xs) := by
  rcases answered_cases s xs with ⟨e, v, hparse, rfl, -⟩ | ⟨-, htext⟩
  · refine ⟨fun hnone => ?_, fun hother => absurd hparse (hother e)⟩
    rw [hparse] at hnone
    cases hnone
  · refine ⟨fun hnone => ?_, fun _ => ⟨_, htext⟩⟩
    rw [htext, if_neg (by simp [hasExpressions, hnone])]

theorem keys_filledFields (fields : Table Value) (xs : List (Option Value)) :
    Table.keys (filled.filledFields fields xs) = fields.keys := by
  induction fields generalizing xs with
  | nil => rfl
  | cons p fields ih => exact congrArg (p.1 :: ·) (ih _)

mutual

/-- **Answers keep the shape of a value.** -/
theorem sameShape_filled : ∀ (v : Value) (xs : List (Option Value)), SameShape v (filled v xs)
  | .str s, xs => .str (becomes_answered s xs)
  | .arr items, xs => .arr (forall₂_filledItems items xs)
  | .obj fields, xs => .obj (keys_filledFields fields xs) (forall₂_filledFields fields xs)
  | .null, _ => .null
  | .bool b, _ => .bool b
  | .num n, _ => .num n

theorem forall₂_filledItems : ∀ (vs : List Value) (xs : List (Option Value)),
    List.Forall₂ SameShape vs (filled.filledItems vs xs)
  | [], _ => .nil
  | v :: vs, _ => .cons (sameShape_filled v _) (forall₂_filledItems vs _)

theorem forall₂_filledFields : ∀ (fields : Table Value) (xs : List (Option Value)),
    List.Forall₂ SameShape fields.values (Table.values (filled.filledFields fields xs))
  | [], _ => .nil
  | (_, v) :: fields, _ => .cons (sameShape_filled v _) (forall₂_filledFields fields _)

end

/-! ### Notes -/

section Notes

variable {ε σ : Type}

/-- A resolver that takes a note of what it is asked for, and otherwise does as another one.  What it remembers and
its notes are there after a failure as well. -/
def recording {α β : Type} (r : α → ExceptT ε (StateM σ) β) (e : α) : ExceptT ε (StateM (σ × List α)) β :=
  fun s =>
    let answer := (r e).run.run s.1
    (answer.1, answer.2, s.2 ++ [e])

/-- Questions are asked in turn, all of them, or up to the first for which there is no answer. -/
theorem run_mapM_recording {α β : Type} (r : α → ExceptT ε (StateM σ) β) (l : List α) (a : σ) (notes : List α) :
    (∃ xs b, (l.mapM r).run.run a = (.ok xs, b) ∧
      (l.mapM (recording r)).run.run (a, notes) = (.ok xs, b, notes ++ l)) ∨
    ∃ front e rest xs c cause b, l = front ++ e :: rest ∧
      (front.mapM r).run.run a = (.ok xs, c) ∧ (r e).run.run c = (.error cause, b) ∧
      (l.mapM r).run.run a = (.error cause, b) ∧
      (l.mapM (recording r)).run.run (a, notes) = (.error cause, b, notes ++ (front ++ [e])) := by
  induction l generalizing a notes with
  | nil => exact Or.inl ⟨[], a, rfl, by rw [List.append_nil]; rfl⟩
  | cons e l ih =>
    rcases hfirst : (r e).run.run a with ⟨cause | x, b⟩
    · have hnoted : (recording r e).run.run (a, notes) = (.error cause, b, notes ++ [e]) := by
        show (((r e).run.run a).1, ((r e).run.run a).2, _) = _
        rw [hfirst]
      refine Or.inr ⟨[], e, l, [], a, cause, b, rfl, rfl, hfirst, ?_, ?_⟩
      · rw [List.mapM_cons]
        exact run_bind_of_error hfirst
      · rw [List.mapM_cons]
        exact run_bind_of_error hnoted
    · have hnoted : (recording r e).run.run (a, notes) = (.ok x, b, notes ++ [e]) := by
        show (((r e).run.run a).1, ((r e).run.run a).2, _) = _
        rw [hfirst]
      rcases ih b (notes ++ [e]) with
        ⟨xs, d, hplain, hrest⟩ | ⟨front, e', rest, xs, c, cause, d, rfl, hfront, hlast, hplain, hrest⟩
      · refine Or.inl ⟨x :: xs, d, ?_, ?_⟩
        · rw [List.mapM_cons, run_bind_of_ok hfirst, run_bind_of_ok hplain]
          rfl
        · rw [List.mapM_cons, run_bind_of_ok hnoted, run_bind_of_ok hrest, List.append_assoc]
          rfl
      · refine Or.inr ⟨e :: front, e', rest, x :: xs, c, cause, d, rfl, ?_, hlast, ?_, ?_⟩
        · rw [List.mapM_cons, run_bind_of_ok hfirst, run_bind_of_ok hfront]
          rfl
        · rw [List.mapM_cons, run_bind_of_ok hfirst, run_bind_of_error hplain]
        · rw [List.mapM_cons, run_bind_of_ok hnoted, run_bind_of_error hrest, List.append_assoc]
          rfl

/-- **A pass asks for what a visit lists.**  If it succeeds, the resolver was asked for all expressions of the value, in
order, and the result has the shape of the value.  If it fails, the resolver was asked for a front of that list, and
the last expression of it is the one for which it failed, with the error of the pass. -/
theorem calls_of_pass (r : String → ExceptT ε (StateM σ) (Option Value)) (v : Value) (a : σ) :
    match (mapExpressions r v).run.run a with
    | (.ok w, b) =>
        (mapExpressions (recording r) v).run.run (a, []) = (.ok w, b, visitExpressions v) ∧ SameShape v w
    | (.error cause, b) =>
        ∃ front e rest, visitExpressions v = front ++ e :: rest ∧
          (mapExpressions (recording r) v).run.run (a, []) = (.error cause, b, front ++ [e]) ∧
          ∃ xs c, (front.mapM r).run.run a = (.ok xs, c) ∧ (r e).run.run c = (.error cause, b) := by
  rw [mapExpressions_eq r, mapExpressions_eq (recording r)]
  rcases run_mapM_recording r (visitExpressions v) a [] with
    ⟨xs, b, hplain, hnoted⟩ | ⟨front, e, rest, xs, c, cause, b, hlist, hfront, hlast, hplain, hnoted⟩
  · rw [run_bind_of_ok hplain, run_bind_of_ok hnoted]
    exact ⟨rfl, sameShape_filled v xs⟩
  · rw [run_bind_of_error hplain, run_bind_of_error hnoted]
    exact ⟨front, e, rest, hlist, rfl, xs, c, hfront, hlast⟩

/-- A resolver that fails in the midst of a text is not asked for what comes later. -/
example :
    let r : String → ExceptT String (StateM Unit) (Option Value) := fun e => if e = "b" then throw e else pure none
    let pass := mapExpressions (recording r)
      (.arr [.str "$\x7b\x7b a \x7d\x7d-$\x7b b \x7d-$\x7b\x7b c \x7d\x7d", .str "$\x7b\x7b d \x7d\x7d"])
    (Id.run (pass.run.run ((), []))).2.2 = ["a", "b"] := by decide +kernel

end Notes

end Groundwork.Template
