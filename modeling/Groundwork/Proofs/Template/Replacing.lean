import Groundwork.Proofs.Template.Filling

/-!
# Texts with other pieces in the place of tokens

A pass that puts texts in the place of tokens changes the texts of a value one by one: each is taken apart, its tokens
give way to other pieces, and it is written anew.  A text that comes out as it went in is canonical.

Main statements: a pass over a value does the same to each of its texts (`splice_eq_mapTexts`); a text is read in the
pieces that were put in if each of these can be read (`parse_replaced`), and is canonical then (`canonical_replaced`);
canonical texts stay as they are where a pass knows none of their tokens (`splice_eq_self_of_canonical`).
-/

namespace Groundwork

/-! ### Texts written anew -/

namespace Template

variable {f g : String → String} {s : String}

/-- A text with other expressions in its tokens, which are written in canonical form. -/
def rewriteText (f : String → String) (s : String) : String := String.ofList (rewritten f (parse s))

/-- Whether all tokens of a text are in canonical form. -/
def Canonical (s : String) : Prop := rewriteText id s = s

instance : DecidablePred Canonical := fun s => inferInstanceAs (Decidable (rewriteText id s = s))

theorem parse_rewriteText (h : ∀ e ∈ expressions (parse s), Plain (f e)) :
    parse (rewriteText f s) = (parse s).map (rewriteSegment f) := parse_rewritten h

/-- **Writing a text anew twice is doing it once**, if the expressions in between are plain. -/
theorem rewriteText_rewriteText (h : ∀ e ∈ expressions (parse s), Plain (f e)) :
    rewriteText g (rewriteText f s) = rewriteText (g ∘ f) s := by
  rw [rewriteText, parse_rewriteText h, rewritten_map, rewriteText]

/-- A token that is written anew as it stood is whole, and so is what follows it. -/
theorem of_renderToken_eq {cs e rest t : List Char} (htake : takeToken cs = some (e, rest))
    (h : (renderToken (String.ofList (Text.trim e))).toList ++ t = '$' :: '\x7b' :: cs) :
    IsWhole (String.ofList (Text.trim e)) ∧ t = rest := by
  have hcs : cs = '\x7b' :: ((' ' :: Text.trim e) ++ ' ' :: '\x7d' :: '\x7d' :: t) := by
    simpa [renderToken, String.toList_append] using h.symm
  have hcut : Text.cut ['\x7d', '\x7d'] ((' ' :: Text.trim e) ++ ' ' :: '\x7d' :: '\x7d' :: t) = some (e, rest) := by
    rw [hcs] at htake
    exact htake
  have hwhole := isWhole_of_cut hcut
  have hpadded : Text.contains ['\x7d', '\x7d'] (' ' :: Text.trim e) = false := by
    rw [IsWhole, String.toList_ofList] at hwhole
    rw [Text.contains_cons, hwhole, Bool.or_false]
    simp [Text.dropStart]
  rw [cut_closer hpadded] at hcut
  exact ⟨hwhole, congrArg Prod.snd (Option.some.inj hcut)⟩

/-- The tokens of what is written anew as it stood are whole. -/
theorem isWhole_of_rewritten_scan (text : List Char) (dollar : Bool) (s : List Char)
    (h : rewritten id (scan text dollar s) = text.reverse ++ s) :
    ∀ e ∈ expressions (scan text dollar s), IsWhole e := by
  fun_induction scan text dollar s with
  | case1 text dollar => simp [expressions_flush]
  | case2 text dollar c => simp [expressions_flush]
  | case3 text c d cs hopen ih => exact ih (by rw [h]; simp)
  | case4 text dollar c d cs hopen hdollar e rest htake ih =>
    obtain ⟨rfl, rfl⟩ := hopen
    rw [rewritten_flush] at h
    obtain ⟨hwhole, hrest⟩ := of_renderToken_eq htake (List.append_cancel_left h)
    intro x hx
    rw [expressions_append, expressions_flush, List.nil_append, expressions] at hx
    rcases List.mem_cons.1 hx with rfl | hx
    · exact hwhole
    · exact ih hrest x hx
  | case5 text dollar c d cs hopen hdollar htake => simp [expressions_flush]
  | case6 text dollar c d cs hopen ih => exact ih (by rw [h]; simp)

/-- **The expressions of a canonical text are plain.** -/
theorem Canonical.plain (h : Canonical s) : ∀ e ∈ expressions (parse s), Plain e := by
  have hchars : rewritten id (parse s) = s.toList := by
    have hsame := congrArg String.toList h
    rwa [rewriteText, String.toList_ofList] at hsame
  exact fun e he => ⟨trim_of_mem_scan [] false s.toList e he, isWhole_of_rewritten_scan [] false s.toList hchars e he⟩

theorem canonical_rewriteText (h : ∀ e ∈ expressions (parse s), Plain (f e)) : Canonical (rewriteText f s) :=
  rewriteText_rewriteText h

end Template

/-! ### Values with other texts -/

namespace Value

variable {f g : String → String}

theorem mapTexts_arr (f : String → String) (items : List Value) :
    (arr items).mapTexts f = arr (items.map (mapTexts f)) := by
  have hitems : ∀ items, mapTexts.mapItemTexts f items = items.map (mapTexts f) := by
    intro items
    induction items with
    | nil => rfl
    | cons v vs ih => rw [mapTexts.mapItemTexts, ih, List.map_cons]
  rw [mapTexts, hitems]

theorem mapTexts_obj (f : String → String) (fields : List (String × Value)) :
    (obj fields).mapTexts f = obj (fields.map fun p => (p.1, p.2.mapTexts f)) := by
  have hfields : ∀ fields, mapTexts.mapFieldTexts f fields = fields.map fun p => (p.1, p.2.mapTexts f) := by
    intro fields
    induction fields with
    | nil => rfl
    | cons p fields ih => rw [mapTexts.mapFieldTexts, ih, List.map_cons]
  rw [mapTexts, hfields]

/-- Only the texts of a value matter for what becomes of it. -/
theorem mapTexts_congr {v : Value} (h : ∀ s ∈ v.texts, f s = g s) : v.mapTexts f = v.mapTexts g := by
  induction v using induction_on with
  | null | bool | num => rfl
  | str s => exact congrArg str (h s (List.mem_singleton.2 rfl))
  | arr items ih =>
    rw [mapTexts_arr, mapTexts_arr]
    refine congrArg arr (List.map_congr_left fun v hv => ih v hv fun s hs => h s ?_)
    rw [texts_arr]
    exact List.mem_flatMap.2 ⟨v, hv, hs⟩
  | obj fields ih =>
    rw [mapTexts_obj, mapTexts_obj]
    refine congrArg obj (List.map_congr_left fun p hp => congrArg (Prod.mk p.1) (ih p hp fun s hs => h s ?_))
    rw [texts_obj]
    exact List.mem_flatMap.2 ⟨p, hp, hs⟩

theorem mapTexts_id (v : Value) : v.mapTexts id = v := by
  induction v using induction_on with
  | null | bool | num | str => rfl
  | arr items ih => rw [mapTexts_arr, map_eq_self_iff.2 ih]
  | obj fields ih => rw [mapTexts_obj, map_eq_self_iff.2 fun p hp => congrArg (Prod.mk p.1) (ih p hp)]

theorem mapTexts_mapTexts (v : Value) : (v.mapTexts f).mapTexts g = v.mapTexts (g ∘ f) := by
  induction v using induction_on with
  | null | bool | num | str => rfl
  | arr items ih =>
    rw [mapTexts_arr, mapTexts_arr, mapTexts_arr, List.map_map]
    exact congrArg arr (List.map_congr_left ih)
  | obj fields ih =>
    rw [mapTexts_obj, mapTexts_obj, mapTexts_obj, List.map_map]
    exact congrArg obj (List.map_congr_left fun p hp => congrArg (Prod.mk p.1) (ih p hp))

theorem texts_mapTexts (v : Value) : (v.mapTexts f).texts = v.texts.map f := by
  induction v using induction_on with
  | null | bool | num | str => rfl
  | arr items ih =>
    rw [mapTexts_arr, texts_arr, texts_arr, List.flatMap_map, List.map_flatMap]
    exact List.flatMap_congr ih
  | obj fields ih =>
    rw [mapTexts_obj, texts_obj, texts_obj, List.flatMap_map, List.map_flatMap]
    exact List.flatMap_congr ih

end Value

/-! ### Other pieces -/

namespace Template

variable {h : String → Segment} {f : String → Option Value} {s : String}

/-- What a piece leaves in a text. -/
def written : Segment → String
  | .text s => s
  | .expr e => renderToken e

/-- A piece with another one in its place if it is a token. -/
def substitute (h : String → Segment) : Segment → Segment
  | .text s => .text s
  | .expr e => h e

/-- A text with other pieces in the place of its tokens. -/
def replaced (h : String → Segment) (s : String) : String :=
  String.ofList (rewritten id ((parse s).map (substitute h)))

/-- Whether a piece is read again wherever it is written: literal text without tokens that leaves what follows alone,
or a plain token. -/
def Legible : Segment → Prop
  | .text s => expressions (parse s) = [] ∧ Settled s
  | .expr e => Plain e

instance : DecidablePred Legible
  | .text _ => inferInstanceAs (Decidable (_ ∧ _))
  | .expr _ => inferInstanceAs (Decidable (Plain _))

/-- Whether a pass puts in what other pieces leave in a text; a token that it does not know stays. -/
def Answers (h : String → Segment) (f : String → Option Value) : Prop :=
  ∀ e, (f e = none ∧ h e = .expr e) ∨ f e = some (.str (written (h e)))

theorem rewritten_cons (x : Segment) (l : List Segment) :
    rewritten id (x :: l) = (written x).toList ++ rewritten id l := by
  cases x <;> rfl

/-- What is written is known from what each piece leaves. -/
theorem rewritten_map_congr {k k' : Segment → Segment} {l : List Segment}
    (hk : ∀ x ∈ l, written (k x) = written (k' x)) : rewritten id (l.map k) = rewritten id (l.map k') := by
  induction l with
  | nil => rfl
  | cons x l ih =>
    rw [List.forall_mem_cons] at hk
    rw [List.map_cons, List.map_cons, rewritten_cons, rewritten_cons, hk.1, ih hk.2]

/-- Joining pieces does not change what is written. -/
theorem rewritten_gather (u : List Char) (l : List Segment) :
    rewritten id (gather u l) = u.reverse ++ rewritten id l := by
  have hput : put (fun _ => none) = id := by
    funext x
    cases x <;> rfl
  have hwritten := rewritten_map_put_gather (fun _ => none) u l
  rwa [hput, List.map_id, List.map_id] at hwritten

theorem expressions_map_substitute (h : String → Segment) (l : List Segment) :
    expressions (l.map (substitute h)) = (expressions l).flatMap fun e => expressions [h e] := by
  induction l with
  | nil => rfl
  | cons x l ih =>
    cases x with
    | text t => exact ih
    | expr e =>
      rw [List.map_cons, expressions, List.flatMap_cons, ← ih, ← expressions_append]
      rfl

theorem forall₂_substitute {l : List Segment} (hh : ∀ e ∈ expressions l, Legible (h e)) :
    List.Forall₂ Stands l (l.map (substitute h)) := by
  induction l with
  | nil => exact .nil
  | cons x l ih =>
    cases x with
    | text t => exact .cons (.text t) (ih hh)
    | expr e =>
      rw [expressions, List.forall_mem_cons] at hh
      refine .cons ?_ (ih hh.2)
      show Stands (.expr e) (h e)
      cases hx : h e with
      | text t =>
        have hlegible : Legible (.text t) := hx ▸ hh.1
        exact .value hlegible.1 hlegible.2
      | expr e' =>
        have hlegible : Legible (.expr e') := hx ▸ hh.1
        exact .token hlegible.1

theorem isWhole_of_legible {x : Segment} (hx : Legible x) : ∀ e ∈ expressions [x], IsWhole e := by
  cases x with
  | text t => exact fun e he => absurd he List.not_mem_nil
  | expr e => exact List.forall_mem_singleton.2 hx.2

/-- **A text is read in the pieces that were put in** if each of them can be read; literal pieces that come together
are one. -/
theorem parse_replaced (hh : ∀ e ∈ expressions (parse s), Legible (h e)) :
    parse (replaced h s) = gather [] ((parse s).map (substitute h)) := by
  refine parse_written (forall₂_substitute hh) fun e he => ?_
  rw [expressions_map_substitute] at he
  obtain ⟨e', he', he⟩ := List.mem_flatMap.1 he
  exact isWhole_of_legible (hh e' he') e he

theorem expressions_replaced (hh : ∀ e ∈ expressions (parse s), Legible (h e)) :
    expressions (parse (replaced h s)) = (expressions (parse s)).flatMap fun e => expressions [h e] := by
  rw [parse_replaced hh, expressions_gather, expressions_map_substitute]

theorem canonical_replaced (hh : ∀ e ∈ expressions (parse s), Legible (h e)) : Canonical (replaced h s) := by
  rw [Canonical, rewriteText, parse_replaced hh, rewritten_gather]
  rfl

/-- Writing other expressions is putting in other tokens. -/
theorem rewriteText_eq_replaced (k : String → String) (s : String) :
    rewriteText k s = replaced (fun e => .expr (k e)) s := by
  have hpieces : (substitute fun e => .expr (k e)) = rewriteSegment k := by
    funext x
    cases x <;> rfl
  rw [rewriteText, replaced, hpieces, rewritten_map]
  rfl

/-! ### Values with other pieces -/

theorem visitExpressions_replaced {v : Value} (hh : ∀ e ∈ visitExpressions v, Legible (h e)) :
    visitExpressions (v.mapTexts (replaced h)) = (visitExpressions v).flatMap fun e => expressions [h e] := by
  rw [visitExpressions_eq_flatMap, Value.texts_mapTexts, List.flatMap_map, visitExpressions_eq_flatMap,
    List.flatMap_assoc]
  exact List.flatMap_congr fun s hs => expressions_replaced fun e he => hh e (mem_visitExpressions_iff.2 ⟨s, hs, he⟩)

theorem splice_eq_mapTexts_str (hf : Answers h f) (s : String) : splice f (.str s) = .str (replaced h s) := by
  cases hsingle : single? (parse s) with
  | some e =>
    have hreplaced : replaced h s = written (h e) := by
      rw [replaced, single?_eq_some hsingle]
      show String.ofList (rewritten id [h e]) = _
      rw [rewritten_cons, rewritten, List.append_nil, String.ofList_toList]
    rw [splice_of_single (single?_eq_some hsingle), hreplaced]
    rcases hf e with ⟨hnone, hstays⟩ | hsome
    · rw [hnone, hstays]
      rfl
    · rw [hsome]
      rfl
  | none =>
    rw [splice_of_not_single hsingle, replaced]
    refine congrArg (fun l => Value.str (String.ofList l)) (rewritten_map_congr fun x _ => ?_)
    cases x with
    | text t => rfl
    | expr e =>
      show written (put f (.expr e)) = written (h e)
      rcases hf e with ⟨hnone, hstays⟩ | hsome
      · rw [put, hnone, hstays]
        rfl
      · rw [put, hsome]
        rfl

/-- **A pass that puts in texts does so in each text by itself.** -/
theorem splice_eq_mapTexts (hf : Answers h f) (v : Value) : splice f v = v.mapTexts (replaced h) := by
  induction v using Value.induction_on with
  | null | bool | num => rfl
  | str s => exact splice_eq_mapTexts_str hf s
  | arr items ih =>
    rw [splice_arr, Value.mapTexts_arr]
    exact congrArg Value.arr (List.map_congr_left ih)
  | obj fields ih =>
    rw [splice_obj, Value.mapTexts_obj]
    exact congrArg Value.obj (List.map_congr_left fun p hp => congrArg (Prod.mk p.1) (ih p hp))

/-- A pass that rewrites tokens rewrites the texts. -/
theorem mapExpressions_of_rewrites {k : String → String} {r : String → Id (Option Value)} (hr : Rewrites k r)
    (v : Value) : Id.run (mapExpressions r v) = v.mapTexts (rewriteText k) := by
  rw [funext (rewriteText_eq_replaced k)]
  refine splice_eq_mapTexts (fun e => ?_) v
  rcases hr e with ⟨hnone, hsame⟩ | hsome
  · exact Or.inl ⟨hnone, congrArg Segment.expr hsame⟩
  · exact Or.inr hsome

/-- **Canonical texts stay as they are** where a pass knows none of their tokens. -/
theorem splice_eq_self_of_canonical {v : Value} (hv : ∀ s ∈ v.texts, Canonical s)
    (hf : ∀ e ∈ visitExpressions v, f e = none) : splice f v = v := by
  have hrewritten : splice (fun _ => none) v = v.mapTexts (rewriteText id) :=
    mapExpressions_of_rewrites (fun e => Or.inl ⟨rfl, rfl⟩) v
  rw [splice_congr hf, hrewritten, Value.mapTexts_congr (g := id) hv, Value.mapTexts_id]

end Template

end Groundwork
