import Groundwork.Proofs.Template.Tidy

/-!
# Putting values in the place of tokens

A value that takes the place of a token becomes a part of the value around it if the token is all of its text,
and is written out within the text otherwise.  Either way the tokens that come in with it are found in the
texts that can be written for its parts.

Main statements: a pass over a tidy value that puts in tidy values makes a tidy value again, in which a token
without replacement is still there, and each token was there before or came in with a value (`spliced_splice`); a
substitution that succeeds is such a pass (`eq_splice_of_mapExpressions`), and so is one by a resolver that does more
than put in values, which it does from left to right (`mapExpressions_noted`).
-/

namespace Groundwork

/-! ### Parts of values -/

namespace Value

/-- All parts of a value, the value itself first. -/
def parts : Value → List Value
  | .arr items => .arr items :: partsOfItems items
  | .obj fields => .obj fields :: partsOfFields fields
  | v => [v]
where
  /-- The parts of items. -/
  partsOfItems : List Value → List Value
    | [] => []
    | v :: vs => parts v ++ partsOfItems vs
  /-- The parts of fields. -/
  partsOfFields : List (String × Value) → List Value
    | [] => []
    | (_, v) :: fields => parts v ++ partsOfFields fields

/-- The texts in a value. -/
def texts (v : Value) : List String := v.parts.filterMap Value.str?

/-- The texts that the parts of a value leave in the midst of a text. -/
def writings (v : Value) : List String := v.parts.map Template.stringify

/-- The expressions of the tokens that can come in with a value. -/
def mentions (v : Value) : List String := v.writings.flatMap fun s => Template.expressions (Template.parse s)

theorem mem_parts_self (v : Value) : v ∈ v.parts := by
  cases v <;> simp [parts]

theorem mem_partsOfItems {items : List Value} {w : Value} :
    w ∈ parts.partsOfItems items ↔ ∃ v ∈ items, w ∈ v.parts := by
  induction items with
  | nil => simp [parts.partsOfItems]
  | cons v vs ih => simp [parts.partsOfItems, ih]

theorem mem_partsOfFields {fields : List (String × Value)} {w : Value} :
    w ∈ parts.partsOfFields fields ↔ ∃ p ∈ fields, w ∈ p.2.parts := by
  induction fields with
  | nil => simp [parts.partsOfFields]
  | cons p vs ih =>
    obtain ⟨k, v⟩ := p
    simp [parts.partsOfFields, ih]

mutual

/-- The parts of a part are parts. -/
theorem parts_subset : ∀ {v w : Value}, w ∈ v.parts → w.parts ⊆ v.parts
  | .arr items, w, h => by
    rcases List.mem_cons.1 h with rfl | h
    · exact fun _ hx => hx
    · exact fun x hx => List.mem_cons_of_mem _ (partsOfItems_subset h hx)
  | .obj fields, w, h => by
    rcases List.mem_cons.1 h with rfl | h
    · exact fun _ hx => hx
    · exact fun x hx => List.mem_cons_of_mem _ (partsOfFields_subset h hx)
  | .null, w, h => by
    rw [List.mem_singleton.1 h]
    exact fun _ hx => hx
  | .bool b, w, h => by
    rw [List.mem_singleton.1 h]
    exact fun _ hx => hx
  | .num n, w, h => by
    rw [List.mem_singleton.1 h]
    exact fun _ hx => hx
  | .str s, w, h => by
    rw [List.mem_singleton.1 h]
    exact fun _ hx => hx

theorem partsOfItems_subset : ∀ {vs : List Value} {w : Value}, w ∈ parts.partsOfItems vs →
    w.parts ⊆ parts.partsOfItems vs
  | v :: vs, w, h => by
    rcases List.mem_append.1 h with h | h
    · exact fun x hx => List.mem_append_left _ (parts_subset h hx)
    · exact fun x hx => List.mem_append_right _ (partsOfItems_subset h hx)

theorem partsOfFields_subset : ∀ {vs : List (String × Value)} {w : Value}, w ∈ parts.partsOfFields vs →
    w.parts ⊆ parts.partsOfFields vs
  | (_, v) :: vs, w, h => by
    rcases List.mem_append.1 h with h | h
    · exact fun x hx => List.mem_append_left _ (parts_subset h hx)
    · exact fun x hx => List.mem_append_right _ (partsOfFields_subset h hx)

end

theorem writings_subset {v w : Value} (h : w ∈ v.parts) : w.writings ⊆ v.writings := by
  intro s hs
  obtain ⟨x, hx, rfl⟩ := List.mem_map.1 hs
  exact List.mem_map_of_mem (parts_subset h hx)

theorem mentions_subset {v w : Value} (h : w ∈ v.parts) : w.mentions ⊆ v.mentions := by
  intro e he
  obtain ⟨s, hs, he⟩ := List.mem_flatMap.1 he
  exact List.mem_flatMap.2 ⟨s, writings_subset h hs, he⟩

/-- A text of a value is what that part leaves in a text. -/
theorem texts_subset_writings (v : Value) : v.texts ⊆ v.writings := by
  intro s hs
  obtain ⟨w, hw, hstr⟩ := List.mem_filterMap.1 hs
  cases w with
  | str t =>
    cases hstr
    exact List.mem_map.2 ⟨.str s, hw, rfl⟩
  | _ => cases hstr

theorem texts_arr (items : List Value) : (Value.arr items).texts = items.flatMap texts := by
  have hitems : ∀ items : List Value, (parts.partsOfItems items).filterMap Value.str? = items.flatMap texts := by
    intro items
    induction items with
    | nil => rfl
    | cons v vs ih =>
      rw [parts.partsOfItems, List.filterMap_append, ih]
      rfl
  exact hitems items

theorem texts_obj (fields : List (String × Value)) :
    (Value.obj fields).texts = fields.flatMap fun p => p.2.texts := by
  have hfields : ∀ fields : List (String × Value),
      (parts.partsOfFields fields).filterMap Value.str? = fields.flatMap fun p => p.2.texts := by
    intro fields
    induction fields with
    | nil => rfl
    | cons p vs ih =>
      obtain ⟨k, v⟩ := p
      rw [parts.partsOfFields, List.filterMap_append, ih]
      rfl
  exact hfields fields

/-! ### Parts found by keys and paths -/

theorem mem_parts_of_field {fields : List (String × Value)} {k : String} {w : Value}
    (h : fields.lookup k = some w) : w ∈ (Value.obj fields).parts := by
  obtain ⟨l, r, rfl, -⟩ := List.lookup_eq_some_iff.1 h
  exact List.mem_cons_of_mem _
    (mem_partsOfFields.2 ⟨(k, w), List.mem_append_right _ List.mem_cons_self, mem_parts_self w⟩)

theorem mem_parts_of_item {items : List Value} {i : Nat} {w : Value} (h : items[i]? = some w) :
    w ∈ (Value.arr items).parts :=
  List.mem_cons_of_mem _ (mem_partsOfItems.2 ⟨w, List.mem_of_getElem? h, mem_parts_self w⟩)

theorem mem_parts_of_get? {v w : Value} {k : String} (h : v.get? k = some w) : w ∈ v.parts := by
  obtain ⟨fields, hfields, hlookup⟩ := Option.bind_eq_some_iff.1 h
  cases v with
  | obj t =>
    cases hfields
    exact mem_parts_of_field hlookup
  | _ => cases hfields

theorem mem_parts_of_step? {v w : Value} {s : Step} (h : Path.step? v s = some w) : w ∈ v.parts := by
  cases s with
  | field name =>
    cases v with
    | obj fields => exact mem_parts_of_field h
    | arr items =>
      obtain ⟨i, -, hi⟩ := Option.bind_eq_some_iff.1 h
      exact mem_parts_of_item hi
    | _ => cases h
  | index n =>
    cases v with
    | obj fields => exact mem_parts_of_field h
    | arr items => exact mem_parts_of_item h
    | _ => cases h

/-- What a path leads to is a part. -/
theorem mem_parts_of_find? {v w : Value} {p : Path} (h : Path.find? v p = some w) : w ∈ v.parts := by
  induction p generalizing v with
  | nil =>
    cases h
    exact mem_parts_self _
  | cons s p ih =>
    obtain ⟨x, hx, hw⟩ := Option.bind_eq_some_iff.1 h
    exact parts_subset (mem_parts_of_step? hx) (ih hw)

end Value

namespace Template

/-- The expressions of a value are those of its texts, in their order. -/
theorem visitExpressions_eq_flatMap (v : Value) :
    visitExpressions v = v.texts.flatMap fun s => expressions (parse s) := by
  induction v using Value.induction_on with
  | null | bool | num => rfl
  | str s => exact (List.append_nil _).symm
  | arr items ih =>
    rw [visitExpressions, visitItems_eq, Value.texts_arr, List.flatMap_assoc]
    exact List.flatMap_congr ih
  | obj fields ih =>
    rw [visitExpressions, visitFields_eq, Value.texts_obj, List.flatMap_assoc]
    exact List.flatMap_congr ih

theorem mem_visitExpressions_iff {v : Value} {e : String} :
    e ∈ visitExpressions v ↔ ∃ s ∈ v.texts, e ∈ expressions (parse s) := by
  rw [visitExpressions_eq_flatMap, List.mem_flatMap]

theorem visitExpressions_subset_mentions (v : Value) : visitExpressions v ⊆ v.mentions := by
  intro e he
  obtain ⟨s, hs, hes⟩ := mem_visitExpressions_iff.1 he
  exact List.mem_flatMap.2 ⟨s, v.texts_subset_writings hs, hes⟩

theorem expressions_stringify_subset_mentions (v : Value) :
    expressions (parse (stringify v)) ⊆ v.mentions :=
  fun _ he => List.mem_flatMap.2 ⟨stringify v, List.mem_map_of_mem v.mem_parts_self, he⟩

/-! ### Splicing -/

/-- Puts values in the place of tokens, where there are any. -/
def splice (f : String → Option Value) (v : Value) : Value :=
  Id.run (mapExpressions (fun e => (pure (f e) : Id _)) v)

variable {f : String → Option Value}

/-- What becomes of a text. -/
def spliceText (f : String → Option Value) (s : String) : Value :=
  Id.run (mapText (fun e => (pure (f e) : Id _)) s)

/-- The expressions that there are in the place of one within a text. -/
def placed (f : String → Option Value) (e : String) : List String :=
  (f e).elim [e] fun v => expressions (parse (stringify v))

theorem reads_renderSegment {x : Segment} (hx : TidySegment x) (hplain : ∀ e ∈ expressions [x], Plain e)
    (hf : ∀ e ∈ expressions [x], ∀ v, f e = some v → TidyText (stringify v)) :
    Reads (Id.run (renderSegment (fun e => (pure (f e) : Id _)) x)).toList
      ((expressions [x]).flatMap (placed f)) := by
  cases x with
  | text t => exact Reads.of_not_mem hx
  | expr e =>
    have he : e ∈ expressions [Segment.expr e] := List.mem_singleton.2 rfl
    show Reads (Id.run (renderSegment _ (.expr e))).toList (placed f e ++ [])
    rw [List.append_nil, placed]
    cases hv : f e with
    | none =>
      have hrender : Id.run (renderSegment (fun e => (pure (f e) : Id _)) (.expr e)) = renderToken e := by
        show Id.run ((pure (f e) : Id _) >>= _) = _
        rw [hv]
        rfl
      rw [hrender]
      exact reads_renderToken (hplain e he)
    | some v =>
      have hrender : Id.run (renderSegment (fun e => (pure (f e) : Id _)) (.expr e)) = stringify v := by
        show Id.run ((pure (f e) : Id _) >>= _) = _
        rw [hv]
        rfl
      rw [hrender]
      exact reads_of_tidyText (hf e he v hv)

/-- **Tidy pieces around tidy values make a tidy text**, with the tokens of all of them. -/
theorem reads_renderSegments {l : List Segment} (hl : ∀ x ∈ l, TidySegment x)
    (hplain : ∀ e ∈ expressions l, Plain e)
    (hf : ∀ e ∈ expressions l, ∀ v, f e = some v → TidyText (stringify v)) :
    Reads (Id.run (renderSegments (fun e => (pure (f e) : Id _)) l)).toList
      ((expressions l).flatMap (placed f)) := by
  induction l with
  | nil => exact .nil
  | cons x l ih =>
    have hexpressions : expressions (x :: l) = expressions [x] ++ expressions l := by
      rw [← expressions_append]
      rfl
    rw [hexpressions] at hplain hf ⊢
    have hfirst := reads_renderSegment (hl x List.mem_cons_self)
      (fun e he => hplain e (List.mem_append_left _ he)) fun e he => hf e (List.mem_append_left _ he)
    have hrest := ih (fun y hy => hl y (List.mem_cons_of_mem x hy))
      (fun e he => hplain e (List.mem_append_right _ he)) fun e he => hf e (List.mem_append_right _ he)
    have hjoined := hfirst.append hrest
    rw [← String.toList_append, ← List.flatMap_append] at hjoined
    exact hjoined

/-- What becomes of a text is the text itself, without tokens; or the value put in or the token anew, where all of
it is a token; or a text. -/
theorem spliceText_cases (f : String → Option Value) (s : String) :
    (expressions (parse s) = [] ∧ spliceText f s = .str s) ∨
      (∃ e v, parse s = [.expr e] ∧ f e = some v ∧ spliceText f s = v) ∨
      spliceText f s = .str (Id.run (renderSegments (fun e => (pure (f e) : Id _)) (parse s))) := by
  unfold spliceText mapText
  dsimp only
  split
  · split
    · rename_i e hsingle
      rw [single?_eq_some hsingle]
      cases hv : f e with
      | none =>
        refine Or.inr (Or.inr ?_)
        show Value.str (renderToken e) = Value.str (Id.run ((pure (f e) : Id _) >>= _) ++ "")
        rw [hv, String.append_empty]
        rfl
      | some v =>
        exact Or.inr (Or.inl ⟨e, v, rfl, hv, rfl⟩)
    · exact Or.inr (Or.inr rfl)
  · rename_i hnone
    exact Or.inl ⟨by simpa [hasExpressions] using hnone, rfl⟩

/-- Whether the texts of a value are tidy. -/
def TidyTexts (v : Value) : Prop := ∀ s ∈ v.texts, TidyText s

instance : DecidablePred TidyTexts := fun v => inferInstanceAs (Decidable (∀ s ∈ v.texts, TidyText s))

/-- Whether a value is tidy in all its parts, also where they are written within a text. -/
def TidyParts (v : Value) : Prop := ∀ s ∈ v.writings, TidyText s

instance : DecidablePred TidyParts := fun v => inferInstanceAs (Decidable (∀ s ∈ v.writings, TidyText s))

theorem TidyParts.texts {v : Value} (h : TidyParts v) : TidyTexts v :=
  fun s hs => h s (v.texts_subset_writings hs)

theorem TidyParts.part {v w : Value} (h : TidyParts v) (hw : w ∈ v.parts) : TidyParts w :=
  fun s hs => h s (Value.writings_subset hw hs)

theorem TidyParts.stringify {v : Value} (h : TidyParts v) : TidyText (stringify v) :=
  h _ (List.mem_map_of_mem v.mem_parts_self)

/-- What a pass makes of a tidy text: its texts are tidy, the tokens without value are still there, and all tokens
stayed or came in. -/
structure Spliced (f : String → Option Value) (l : List String) (w : Value) : Prop where
  tidy : TidyTexts w
  kept : ∀ e ∈ l, f e = none → e ∈ visitExpressions w
  source : ∀ e' ∈ visitExpressions w, (e' ∈ l ∧ f e' = none) ∨ ∃ e ∈ l, ∃ v, f e = some v ∧ e' ∈ v.mentions

theorem spliced_spliceText {s : String} (hs : TidyText s)
    (hf : ∀ e ∈ expressions (parse s), ∀ v, f e = some v → TidyParts v) :
    Spliced f (expressions (parse s)) (spliceText f s) := by
  rcases spliceText_cases f s with ⟨hnone, hw⟩ | ⟨e, v, hparse, hv, hw⟩ | hw
  · rw [hw, hnone]
    refine ⟨fun t ht => ?_, fun e he => absurd he List.not_mem_nil, fun e' he' => ?_⟩
    · rw [List.mem_singleton.1 ht]
      exact hs
    · rw [visitExpressions, hnone] at he'
      cases he'
  · have hexpressions : expressions (parse s) = [e] := by
      rw [hparse]
      rfl
    rw [hexpressions] at hf ⊢
    rw [hw]
    have he : e ∈ [e] := List.mem_singleton.2 rfl
    refine ⟨(hf e he v hv).texts, fun e' he' hnone => ?_, fun e' he' => ?_⟩
    · rw [List.mem_singleton.1 he', hv] at hnone
      cases hnone
    · exact Or.inr ⟨e, he, v, hv, visitExpressions_subset_mentions v he'⟩
  · have hreads := reads_renderSegments hs (plain_of_tidyText hs) fun e he v hv => (hf e he v hv).stringify
    rw [hw]
    refine ⟨fun t ht => ?_, fun e he hnone => ?_, fun e' he' => ?_⟩
    · rw [List.mem_singleton.1 ht]
      exact tidyText_of_reads hreads
    · rw [visitExpressions, hreads.expressions_parse]
      refine List.mem_flatMap.2 ⟨e, he, ?_⟩
      rw [placed, hnone]
      exact List.mem_singleton.2 rfl
    · rw [visitExpressions, hreads.expressions_parse] at he'
      obtain ⟨e, he, hplaced⟩ := List.mem_flatMap.1 he'
      rw [placed] at hplaced
      cases hv : f e with
      | none =>
        rw [hv] at hplaced
        rw [List.mem_singleton.1 hplaced]
        exact Or.inl ⟨he, hv⟩
      | some v =>
        rw [hv] at hplaced
        exact Or.inr ⟨e, he, v, hv, expressions_stringify_subset_mentions v hplaced⟩

/-- What holds of each of some values holds of a value that has the texts and expressions of all of them. -/
theorem Spliced.join {ι : Type} {is : List ι} {l : ι → List String} {w : ι → Value} {v : Value}
    (h : ∀ i ∈ is, Spliced f (l i) (w i)) (htexts : v.texts = is.flatMap fun i => (w i).texts) :
    Spliced f (is.flatMap l) v := by
  have hvisit : ∀ e, e ∈ visitExpressions v ↔ ∃ i ∈ is, e ∈ visitExpressions (w i) := by
    intro e
    simp only [mem_visitExpressions_iff, htexts, List.mem_flatMap]
    constructor
    · rintro ⟨s, ⟨i, hi, hs⟩, he⟩
      exact ⟨i, hi, s, hs, he⟩
    · rintro ⟨i, hi, s, hs, he⟩
      exact ⟨s, ⟨i, hi, hs⟩, he⟩
  refine ⟨fun s hs => ?_, fun e he hnone => ?_, fun e' he' => ?_⟩
  · rw [htexts] at hs
    obtain ⟨i, hi, hs⟩ := List.mem_flatMap.1 hs
    exact (h i hi).tidy s hs
  · obtain ⟨i, hi, he⟩ := List.mem_flatMap.1 he
    exact (hvisit e).2 ⟨i, hi, (h i hi).kept e he hnone⟩
  · obtain ⟨i, hi, he'⟩ := (hvisit e').1 he'
    rcases (h i hi).source e' he' with ⟨he, hnone⟩ | ⟨e, he, hput⟩
    · exact Or.inl ⟨List.mem_flatMap.2 ⟨i, hi, he⟩, hnone⟩
    · exact Or.inr ⟨e, List.mem_flatMap.2 ⟨i, hi, he⟩, hput⟩

theorem splice_arr (f : String → Option Value) (items : List Value) :
    splice f (.arr items) = .arr (items.map (splice f)) := by
  have hitems : ∀ items : List Value,
      Id.run (mapExpressions.mapItems (fun e => (pure (f e) : Id _)) items) = items.map (splice f) := by
    intro items
    induction items with
    | nil => rfl
    | cons v vs ih =>
      rw [List.map_cons, ← ih]
      rfl
  rw [← hitems]
  rfl

theorem splice_obj (f : String → Option Value) (fields : List (String × Value)) :
    splice f (.obj fields) = .obj (fields.map fun p => (p.1, splice f p.2)) := by
  have hfields : ∀ fields : List (String × Value),
      Id.run (mapExpressions.mapFields (fun e => (pure (f e) : Id _)) fields)
        = fields.map fun p => (p.1, splice f p.2) := by
    intro fields
    induction fields with
    | nil => rfl
    | cons p vs ih =>
      rw [List.map_cons, ← ih]
      rfl
  rw [← hfields]
  rfl

/-- A value without texts has nothing to put values into. -/
theorem spliced_of_texts_eq_nil {v : Value} (h : v.texts = []) : Spliced f [] v := by
  refine ⟨fun s hs => ?_, fun e he => absurd he List.not_mem_nil, fun e' he' => ?_⟩
  · rw [h] at hs
    cases hs
  · obtain ⟨s, hs, -⟩ := mem_visitExpressions_iff.1 he'
    rw [h] at hs
    cases hs

/-- **A pass over a tidy value that puts in tidy values makes a tidy value**, and its tokens are those that
stayed and those that came in. -/
theorem spliced_splice {v : Value} (hv : TidyTexts v)
    (hf : ∀ e ∈ visitExpressions v, ∀ w, f e = some w → TidyParts w) :
    Spliced f (visitExpressions v) (splice f v) := by
  induction v using Value.induction_on with
  | null | bool | num => exact spliced_of_texts_eq_nil rfl
  | str s => exact spliced_spliceText (hv s (List.mem_singleton.2 rfl)) hf
  | arr items ih =>
    rw [splice_arr, visitExpressions, visitItems_eq]
    refine Spliced.join (w := splice f) (fun v hm => ih v hm (fun s hs => hv s ?_) fun e he => hf e ?_)
      (by rw [Value.texts_arr, List.flatMap_map])
    · rw [Value.texts_arr]
      exact List.mem_flatMap.2 ⟨v, hm, hs⟩
    · rw [visitExpressions, visitItems_eq]
      exact List.mem_flatMap.2 ⟨v, hm, he⟩
  | obj fields ih =>
    rw [splice_obj, visitExpressions, visitFields_eq]
    refine Spliced.join (w := fun p : String × Value => splice f p.2)
      (fun p hm => ih p hm (fun s hs => hv s ?_) fun e he => hf e ?_) (by rw [Value.texts_obj, List.flatMap_map])
    · rw [Value.texts_obj]
      exact List.mem_flatMap.2 ⟨p, hm, hs⟩
    · rw [visitExpressions, visitFields_eq]
      exact List.mem_flatMap.2 ⟨p, hm, he⟩

/-! ### Splicing by a resolver that does more -/

section Noted

variable {m : Type → Type} [Monad m] [LawfulMonad m]

/-- A resolver that does something for each expression, but puts in what depends on the expression alone. -/
def noted (note : String → m PUnit) (f : String → Option Value) (e : String) : m (Option Value) :=
  note e >>= fun _ => pure (f e)

theorem renderSegment_noted (note : String → m PUnit) (f : String → Option Value) (x : Segment) :
    renderSegment (noted note f) x = forM (expressions [x]) note >>= fun _ =>
      pure (Id.run (renderSegment (fun e => (pure (f e) : Id _)) x)) := by
  cases x with
  | text t =>
    rw [expressions, expressions, List.forM_nil, pure_bind]
    rfl
  | expr e =>
    rw [expressions, expressions, List.forM_cons, List.forM_nil, renderSegment, noted, bind_assoc, bind_assoc]
    refine congrArg (note e >>= ·) (funext fun _ => ?_)
    rw [pure_bind, pure_bind]
    cases hf : f e <;> simp [renderSegment, hf]

theorem renderSegments_noted (note : String → m PUnit) (f : String → Option Value) (l : List Segment) :
    renderSegments (noted note f) l = forM (expressions l) note >>= fun _ =>
      pure (Id.run (renderSegments (fun e => (pure (f e) : Id _)) l)) := by
  induction l with
  | nil =>
    rw [expressions, List.forM_nil, pure_bind]
    rfl
  | cons x l ih =>
    have hexpressions : expressions (x :: l) = expressions [x] ++ expressions l := expressions_append [x] l
    rw [hexpressions, List.forM_append, renderSegments, renderSegment_noted, ih]
    simp only [bind_assoc, pure_bind]
    rfl

theorem mapText_noted (note : String → m PUnit) (f : String → Option Value) (s : String) :
    mapText (noted note f) s = forM (expressions (parse s)) note >>= fun _ => pure (spliceText f s) := by
  unfold spliceText mapText
  dsimp only
  split
  · split
    · rename_i e hsingle
      rw [single?_eq_some hsingle, expressions, expressions, List.forM_cons, List.forM_nil, noted, bind_assoc,
        bind_assoc]
      refine congrArg (note e >>= ·) (funext fun _ => ?_)
      rw [pure_bind, pure_bind]
      cases hf : f e <;> simp
    · rw [renderSegments_noted, bind_assoc]
      simp only [pure_bind]
      rfl
  · rename_i hnone
    have hempty : expressions (parse s) = [] := by simpa [hasExpressions] using hnone
    rw [hempty, List.forM_nil, pure_bind]
    rfl

mutual

/-- **A resolver that does something for each expression** does so for those of a value from left to right, and
splices. -/
theorem mapExpressions_noted (note : String → m PUnit) (f : String → Option Value) : ∀ v : Value,
    mapExpressions (noted note f) v = forM (visitExpressions v) note >>= fun _ => pure (splice f v)
  | .str s => by
    rw [mapExpressions, mapText_noted]
    rfl
  | .arr items => by
    rw [mapExpressions, mapItems_noted, bind_assoc, splice_arr]
    simp only [pure_bind]
    rfl
  | .obj fields => by
    rw [mapExpressions, mapFields_noted, bind_assoc, splice_obj]
    simp only [pure_bind]
    rfl
  | .null => (pure_bind PUnit.unit fun _ => pure Value.null).symm
  | .bool b => (pure_bind PUnit.unit fun _ => pure (Value.bool b)).symm
  | .num n => (pure_bind PUnit.unit fun _ => pure (Value.num n)).symm

theorem mapItems_noted (note : String → m PUnit) (f : String → Option Value) : ∀ vs : List Value,
    mapExpressions.mapItems (noted note f) vs = forM (visitExpressions.visitItems vs) note >>= fun _ =>
      pure (vs.map (splice f))
  | [] => by
    rw [visitExpressions.visitItems, List.forM_nil, pure_bind]
    rfl
  | v :: vs => by
    rw [mapExpressions.mapItems, mapExpressions_noted note f v, mapItems_noted note f vs,
      visitExpressions.visitItems, List.forM_append]
    simp only [bind_assoc, pure_bind]
    rfl

theorem mapFields_noted (note : String → m PUnit) (f : String → Option Value) : ∀ vs : List (String × Value),
    mapExpressions.mapFields (noted note f) vs = forM (visitExpressions.visitFields vs) note >>= fun _ =>
      pure (vs.map fun p => (p.1, splice f p.2))
  | [] => by
    rw [visitExpressions.visitFields, List.forM_nil, pure_bind]
    rfl
  | (k, v) :: vs => by
    rw [mapExpressions.mapFields, mapExpressions_noted note f v, mapFields_noted note f vs,
      visitExpressions.visitFields, List.forM_append]
    simp only [bind_assoc, pure_bind]
    rfl

end

/-- **A resolver without effects splices**, in any monad. -/
theorem mapExpressions_pure (f : String → Option Value) (v : Value) :
    mapExpressions (fun e => (pure (f e) : m _)) v = pure (splice f v) := by
  have hnone : ∀ l : List String, (forM l fun _ => pure PUnit.unit : m PUnit) = pure PUnit.unit := by
    intro l
    induction l with
    | nil => rfl
    | cons e l ih => rw [List.forM_cons, pure_bind, ih]
  have hnoted : (fun e => (pure (f e) : m _)) = noted (fun _ => pure PUnit.unit) f :=
    funext fun e => by rw [noted, pure_bind]
  rw [hnoted, mapExpressions_noted, hnone, pure_bind]

end Noted

/-- What a resolver puts in the place of an expression, if it does not fail. -/
def replacement {ε : Type} (r : String → Except ε (Option Value)) (e : String) : Option Value :=
  match r e with
  | .ok x => x
  | .error _ => none

/-- **A substitution that succeeds splices what the resolver puts in.** -/
theorem eq_splice_of_mapExpressions {ε : Type} {r : String → Except ε (Option Value)} {v w : Value}
    (h : mapExpressions r v = .ok w) : w = splice (replacement r) v := by
  have hagree : ∀ e ∈ visitExpressions v, r e = (pure (replacement r e) : Except ε _) := by
    intro e he
    obtain ⟨x, hx⟩ := exists_eq_ok_of_mapExpressions h e he
    rw [replacement, hx]
    rfl
  rw [mapExpressions_congr hagree, mapExpressions_pure] at h
  exact (Except.ok.inj h).symm

end Template

end Groundwork
