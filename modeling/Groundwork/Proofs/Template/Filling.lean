import Groundwork.Proofs.Template.Composition
import Mathlib.Logic.Function.Iterate

/-!
# Filling in values a few at a time

What is known may be filled in before all is known, and the rest in a later pass.  A value that is put in is read
again by that pass.  It makes no difference if it has no tokens of its own, and in the midst of a text if it is
settled as well.  There is one more thing to mind: where an empty text is put in between tokens, it may leave one of
them as all of the text.

Main statements: if all values that are put in are such, a pass leaves the tokens that it does not know, and a later
pass does as if it knew the values of the first (`filled_splice`); and so any number of passes make what one would
that knows all (`Filled.iterate`).
-/

namespace Groundwork.Template

variable {f g : String → Option Value}

/-- Whether a piece is literal. -/
def isLiteral : Segment → Bool
  | .text _ => true
  | .expr _ => false

/-- A piece with the value put in that a pass has for it. -/
def put (f : String → Option Value) : Segment → Segment
  | .text s => .text s
  | .expr e => (f e).elim (.expr e) fun v => .text (stringify v)

theorem fill_map (f : String → Option Value) (l : List Segment) :
    fill l ((expressions l).map f) = l.map (put f) := by
  induction l with
  | nil => rfl
  | cons x l ih =>
    cases x with
    | text t => rw [expressions, fill, ih, List.map_cons, put]
    | expr e =>
      rw [expressions, List.map_cons, List.map_cons, put, ← ih]
      cases f e <;> rfl

theorem put_put (x : Segment) : put g (put f x) = put (fun e => (f e).or (g e)) x := by
  cases x with
  | text t => rfl
  | expr e => cases hv : f e <;> simp [put, hv]

theorem mem_expressions_iff {l : List Segment} {e : String} : e ∈ expressions l ↔ Segment.expr e ∈ l := by
  induction l with
  | nil => simp [expressions]
  | cons x l ih => cases x <;> simp [expressions, ih]

theorem expressions_map_put (f : String → Option Value) (l : List Segment) :
    expressions (l.map (put f)) = (expressions l).filter fun e => (f e).isNone := by
  induction l with
  | nil => rfl
  | cons x l ih =>
    cases x with
    | text t => rw [List.map_cons, put, expressions, expressions, ih]
    | expr e => cases hv : f e <;> simp [put, expressions, hv, ih]

theorem rewritten_map_put_flush (g : String → Option Value) (u : List Char) (l : List Segment) :
    rewritten id ((flush u ++ l).map (put g)) = u.reverse ++ rewritten id (l.map (put g)) := by
  have hsame : (flush u).map (put g) = flush u := by
    unfold flush
    split <;> rfl
  rw [List.map_append, hsame, rewritten_flush]

/-- Pieces that are joined are rewritten as they are. -/
theorem rewritten_map_put_gather (g : String → Option Value) (u : List Char) (l : List Segment) :
    rewritten id ((gather u l).map (put g)) = u.reverse ++ rewritten id (l.map (put g)) := by
  induction l generalizing u with
  | nil => rw [gather, ← List.append_nil (flush u), rewritten_map_put_flush]
  | cons x l ih =>
    cases x with
    | text t => simp [gather, ih, put, rewritten]
    | expr e =>
      rw [gather, rewritten_map_put_flush, List.map_cons, List.map_cons]
      cases hv : g e <;> simp [put, hv, rewritten, ih]

/-- Literal text that is not empty stays when pieces are joined, with others perhaps. -/
theorem exists_text_of_mem_gather {u : List Char} {l : List Segment}
    (h : u ≠ [] ∨ ∃ s, s ≠ "" ∧ Segment.text s ∈ l) : ∃ s, Segment.text s ∈ gather u l := by
  have hflush : ∀ {u : List Char}, u ≠ [] → Segment.text (String.ofList u.reverse) ∈ flush u := by
    intro u hu
    rw [flush, if_neg (by simpa using hu)]
    exact List.mem_singleton.2 rfl
  induction l generalizing u with
  | nil =>
    rcases h with h | ⟨s, -, hs⟩
    · exact ⟨_, hflush h⟩
    · cases hs
  | cons x l ih =>
    cases x with
    | text t =>
      rw [gather]
      refine ih ?_
      rcases h with h | ⟨s, hne, hs⟩
      · exact Or.inl fun hnil => h (List.append_eq_nil_iff.1 hnil).2
      · rcases List.mem_cons.1 hs with hfirst | hs
        · cases hfirst
          refine Or.inl fun hnil => hne ?_
          have hchars := List.reverse_eq_nil_iff.1 (List.append_eq_nil_iff.1 hnil).1
          rw [← String.ofList_toList (s := t), hchars]
        · exact Or.inr ⟨s, hne, hs⟩
    | expr e =>
      rw [gather]
      rcases h with h | ⟨s, hne, hs⟩
      · exact ⟨_, List.mem_append_left _ (hflush h)⟩
      · obtain ⟨s', hs'⟩ := ih (Or.inr ⟨s, hne, List.mem_of_ne_of_mem Segment.noConfusion hs⟩)
        exact ⟨s', List.mem_append_right _ (List.mem_cons_of_mem _ hs')⟩

theorem gather_of_not_literal {l : List Segment} (h : l.any isLiteral = false) : gather [] l = l := by
  induction l with
  | nil => rfl
  | cons x l ih =>
    cases x with
    | text t => cases h
    | expr e =>
      rw [gather, ih h]
      rfl

/-- The literal pieces of a text are not empty. -/
theorem ne_empty_of_mem_scan {text : List Char} {dollar : Bool} {s : List Char} {t : String}
    (h : Segment.text t ∈ scan text dollar s) : t ≠ "" := by
  have hflush : ∀ {u : List Char}, Segment.text t ∈ flush u → t ≠ "" := by
    intro u hu
    unfold flush at hu
    split at hu
    · cases hu
    · rename_i hne
      cases List.mem_singleton.1 hu
      simpa using hne
  fun_induction scan text dollar s with
  | case1 text dollar => exact hflush h
  | case2 text dollar c => exact hflush h
  | case3 text c d cs hopen ih => exact ih h
  | case4 text dollar c d cs hopen hdollar e rest htake ih =>
    rcases List.mem_append.1 h with h | h
    · exact hflush h
    · exact ih (List.mem_of_ne_of_mem (by simp) h)
  | case5 text dollar c d cs hopen hdollar htake => exact hflush h
  | case6 text dollar c d cs hopen ih => exact ih h

/-- Whether a later pass can find a text as it was after a value is put in.  Where the value becomes all of it, it has
no tokens; in the midst of a text it is settled and has none, and it is not empty if there are only tokens around. -/
def Takes (t : String) (v : Value) : Prop :=
  if (single? (parse t)).isSome then visitExpressions v = []
  else expressions (parse (stringify v)) = [] ∧ Settled (stringify v) ∧
    (stringify v = "" → (parse t).any isLiteral = true)

instance (t : String) (v : Value) : Decidable (Takes t v) := by
  unfold Takes
  infer_instance

/-- Whether a pass over a value leaves the tokens that it does not know to a later one. -/
def Fits (f : String → Option Value) (d : Value) : Prop :=
  ∀ t ∈ d.texts, ∀ e ∈ expressions (parse t), IsWhole e ∧ ∀ v, f e = some v → Takes t v

/-- Whether a value is another one with some tokens filled in: the others are left, and a later pass does as if it
knew the values of these. -/
structure Filled (f : String → Option Value) (d v : Value) : Prop where
  left : visitExpressions v = (visitExpressions d).filter fun e => (f e).isNone
  again : ∀ g, splice g v = splice (fun e => (f e).or (g e)) d

theorem splice_congr {v : Value} (h : ∀ e ∈ visitExpressions v, f e = g e) : splice f v = splice g v :=
  congrArg Id.run (mapExpressions_congr fun e he => congrArg pure (h e he))

theorem filled_self {d : Value} (h : ∀ e ∈ visitExpressions d, f e = none) : Filled f d d where
  left := by
    rw [eq_comm, List.filter_eq_self]
    exact fun e he => by rw [h e he]; rfl
  again g := splice_congr fun e he => by rw [h e he, Option.none_or]

theorem Filled.congr {d v : Value} (h : Filled f d v) (hg : ∀ e ∈ visitExpressions d, f e = g e) : Filled g d v where
  left := by
    rw [h.left]
    exact List.filter_congr fun e he => by rw [hg e he]
  again k := by
    rw [h.again]
    exact splice_congr fun e he => by rw [hg e he]

theorem splice_str (f : String → Option Value) (s : String) :
    splice f (.str s) = answered s ((expressions (parse s)).map f) := by
  show Id.run (mapText (fun e => (pure (f e) : Id _)) s) = _
  rw [mapText_eq, List.mapM_pure]
  rfl

theorem splice_of_single {s e : String} (h : parse s = [.expr e]) :
    splice f (.str s) = (f e).getD (.str (renderToken e)) := by
  rw [splice_str, h]
  exact answered_of_single h (f e)

theorem splice_of_expressions_eq_nil {s : String} (h : expressions (parse s) = []) :
    splice f (.str s) = .str s := by
  rw [splice_str, answered_of_not_single (single?_eq_none_of_nil h), if_neg (by simp [hasExpressions, h])]

theorem splice_of_not_single {s : String} (h : single? (parse s) = none) :
    splice f (.str s) = .str (String.ofList (rewritten id ((parse s).map (put f)))) := by
  by_cases hsome : hasExpressions (parse s) = true
  · rw [splice_str, answered_of_not_single h, fill_map, if_pos hsome]
  · have hnone := expressions_eq_nil_of_not hsome
    have hparse : parse s = flush (s.toList.reverse ++ []) := scan_of_expressions_eq_nil hnone
    rw [splice_of_expressions_eq_nil hnone, hparse, ← List.append_nil (flush _), rewritten_map_put_flush]
    simp [rewritten]

/-- A pass does nothing to a value without tokens. -/
theorem splice_eq_self {v : Value} (h : visitExpressions v = []) : splice f v = v := by
  induction v using Value.induction_on with
  | null | bool | num => rfl
  | str s => exact splice_of_expressions_eq_nil h
  | arr items ih =>
    rw [visitExpressions, visitItems_eq, List.flatMap_eq_nil_iff] at h
    rw [splice_arr, map_eq_self_iff.2 fun v hv => ih v hv (h v hv)]
  | obj fields ih =>
    rw [visitExpressions, visitFields_eq, List.flatMap_eq_nil_iff] at h
    rw [splice_obj, map_eq_self_iff.2 fun p hp => congrArg (Prod.mk p.1) (ih p hp (h p hp))]

/-- A text that is one token is filled in whole. -/
theorem filled_single {t e : String} (hparse : parse t = [.expr e]) (h : Fits f (.str t)) :
    Filled f (.str t) (splice f (.str t)) := by
  have hexpressions : expressions (parse t) = [e] := by
    rw [hparse]
    rfl
  obtain ⟨hwhole, htakes⟩ := h t (List.mem_singleton.2 rfl) e (by rw [hexpressions]; exact List.mem_singleton.2 rfl)
  rw [splice_of_single hparse]
  cases hv : f e with
  | some v =>
    have hnone : visitExpressions v = [] := by
      have htaken := htakes v hv
      rw [Takes, hparse] at htaken
      exact htaken
    refine ⟨?_, fun g => ?_⟩
    · rw [visitExpressions, hexpressions, List.filter_cons, hv]
      exact hnone
    · rw [splice_of_single hparse, hv]
      exact splice_eq_self hnone
  | none =>
    -- the token is found again as it was
    have hagain : parse (renderToken e) = [.expr e] := by
      have hcanonical := parse_canonical (s := t) fun e' he' => by
        rw [hexpressions] at he'
        rwa [List.mem_singleton.1 he']
      rwa [hparse, rewritten, rewritten, List.append_nil, String.ofList_toList] at hcanonical
    refine ⟨?_, fun g => ?_⟩
    · rw [visitExpressions, hexpressions, List.filter_cons, hv]
      show expressions (parse (renderToken e)) = [e]
      rw [hagain]
      rfl
    · rw [splice_of_single hparse, hv, Option.none_or]
      exact splice_of_single hagain

/-- A text of several pieces does not become one token. -/
theorem single?_gather_put {t : String} (hsingle : single? (parse t) = none) (h : Fits f (.str t)) :
    single? (gather [] ((parse t).map (put f))) = none := by
  rw [Option.eq_none_iff_forall_ne_some]
  intro e he
  have hgather := single?_eq_some he
  have hempty : ∀ s, Segment.text s ∈ (parse t).map (put f) → s = "" := by
    intro s hs
    by_contra hne
    obtain ⟨s', hs'⟩ := exists_text_of_mem_gather (u := []) (Or.inr ⟨s, hne, hs⟩)
    rw [hgather] at hs'
    cases List.mem_singleton.1 hs'
  cases hliteral : (parse t).any isLiteral with
  | true =>
    obtain ⟨x, hx, htext⟩ := List.any_eq_true.1 hliteral
    cases x with
    | expr e => cases htext
    | text s => exact ne_empty_of_mem_scan hx (hempty s (List.mem_map.2 ⟨.text s, hx, rfl⟩))
  | false =>
    -- no token has a value, since none that is put in is empty
    have hnone : ∀ e ∈ expressions (parse t), f e = none := by
      intro e' he'
      rw [Option.eq_none_iff_forall_ne_some]
      intro v hv
      have htakes := (h t (List.mem_singleton.2 rfl) e' he').2 v hv
      rw [Takes, hsingle] at htakes
      have hput : Segment.text (stringify v) ∈ (parse t).map (put f) :=
        List.mem_map.2 ⟨.expr e', mem_expressions_iff.1 he', by rw [put, hv]; rfl⟩
      rw [htakes.2.2 (hempty _ hput)] at hliteral
      cases hliteral
    rw [← fill_map, fill_of_none (List.length_map ..) (by simpa using hnone),
      gather_of_not_literal hliteral] at hgather
    rw [hgather] at hsingle
    cases hsingle

/-- A text of several pieces stays one. -/
theorem filled_pieces {t : String} (hsingle : single? (parse t) = none) (h : Fits f (.str t)) :
    Filled f (.str t) (splice f (.str t)) := by
  have hfits := h t (List.mem_singleton.2 rfl)
  have hstands : List.Forall₂ Stands (parse t) ((parse t).map (put f)) := by
    rw [← fill_map]
    refine forall₂_fill (List.length_map ..) (trim_of_mem_scan [] false t.toList) fun v hv => ?_
    obtain ⟨e, he, hve⟩ := List.mem_map.1 hv
    have htakes := (hfits e he).2 v hve
    rw [Takes, hsingle] at htakes
    exact ⟨htakes.1, htakes.2.1⟩
  have hwhole : ∀ e ∈ expressions ((parse t).map (put f)), IsWhole e := by
    rw [expressions_map_put]
    exact fun e he => (hfits e (List.mem_of_mem_filter he)).1
  have hparse := parse_written hstands hwhole
  have hstill := single?_gather_put hsingle h
  rw [splice_of_not_single hsingle]
  refine ⟨?_, fun g => ?_⟩
  · rw [visitExpressions, hparse, expressions_gather, expressions_map_put]
    rfl
  · have hagain : splice g (.str (String.ofList (rewritten id ((parse t).map (put f)))))
        = .str (String.ofList (rewritten id ((gather [] ((parse t).map (put f))).map (put g)))) := by
      rw [splice_of_not_single (by rw [hparse]; exact hstill), hparse]
    rw [hagain, splice_of_not_single hsingle, rewritten_map_put_gather, List.map_map, List.reverse_nil,
      List.nil_append]
    exact congrArg (fun l => Value.str (String.ofList (rewritten id l))) (List.map_congr_left fun x _ => put_put x)

theorem Fits.item {items : List Value} (h : Fits f (.arr items)) : ∀ v ∈ items, Fits f v := by
  intro v hv t ht
  refine h t ?_
  rw [Value.texts_arr]
  exact List.mem_flatMap.2 ⟨v, hv, ht⟩

theorem Fits.field {fields : List (String × Value)} (h : Fits f (.obj fields)) : ∀ p ∈ fields, Fits f p.2 := by
  intro p hp t ht
  refine h t ?_
  rw [Value.texts_obj]
  exact List.mem_flatMap.2 ⟨p, hp, ht⟩

/-- **A pass that fits a value leaves the tokens that it does not know**, and a later one does as if it knew the
values of the first. -/
theorem filled_splice {d : Value} (h : Fits f d) : Filled f d (splice f d) := by
  induction d using Value.induction_on with
  | null | bool | num => exact filled_self fun _ he => absurd he List.not_mem_nil
  | str t =>
    cases hsingle : single? (parse t) with
    | some e => exact filled_single (single?_eq_some hsingle) h
    | none => exact filled_pieces hsingle h
  | arr items ih =>
    have hitems := fun v hv => ih v hv (h.item v hv)
    rw [splice_arr]
    refine ⟨?_, fun g => ?_⟩
    · rw [visitExpressions, visitExpressions, visitItems_eq, visitItems_eq, List.flatMap_map, List.filter_flatMap]
      exact List.flatMap_congr fun v hv => (hitems v hv).left
    · rw [splice_arr, splice_arr, List.map_map]
      exact congrArg Value.arr (List.map_congr_left fun v hv => (hitems v hv).again g)
  | obj fields ih =>
    have hfields := fun p hp => ih p hp (h.field p hp)
    rw [splice_obj]
    refine ⟨?_, fun g => ?_⟩
    · rw [visitExpressions, visitExpressions, visitFields_eq, visitFields_eq, List.flatMap_map, List.filter_flatMap]
      exact List.flatMap_congr fun p hp => (hfields p hp).left
    · rw [splice_obj, splice_obj, List.map_map]
      exact congrArg Value.obj (List.map_congr_left fun p hp => congrArg (Prod.mk p.1) ((hfields p hp).again g))

/-- Passes that put in more leave a value with all of that filled in; it does not matter how many they are. -/
theorem Filled.iterate {h : String → Option Value} {d v : Value} (hv : Filled f d v) (hfits : Fits h d)
    (hh : ∀ e ∈ visitExpressions d, h e = (f e).or (g e)) (n : Nat) : Filled h d ((splice g)^[n + 1] v) := by
  have hpass : (splice g)^[n + 1] v = splice h d := by
    induction n with
    | zero => exact (hv.again g).trans (splice_congr fun e he => (hh e he).symm)
    | succ n ih =>
      rw [Function.iterate_succ_apply', ih, (filled_splice hfits).again]
      refine splice_congr fun e he => ?_
      rw [hh e he]
      cases f e <;> cases g e <;> rfl
  rw [hpass]
  exact filled_splice hfits

end Groundwork.Template
