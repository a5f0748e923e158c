import Groundwork.Proofs.Data.Sorted
import Groundwork.Proofs.Template.Splicing
import Groundwork.Proofs.Template.Settling

/-!
# Values on their way out

Before a value leaves the library, each literal opener in its texts gives way to what it stands for.  This pass
goes by the texts alone and does not know where they came from: a value that was put in the place of a token is
changed like one that was written there.

Both passes, this one and the one that puts values in, go through the items and fields of a value and leave them
in their places; so what either makes of a part is found where the part was.

Any text can be written so that none of its openers begins a token: with a dollar sign in front of each opener.
Passes over the text leave it as it is, and unescaping it gives back what was meant.  This holds for every text,
with dollar signs in a row, braces that are not closed, or literal openers of its own.

Main statements: unescaping a text exchanges all literal openers and nothing else (`exchanged_unescapeText`), a value
stays as it is exactly if it has no literal opener (`unescape_eq_self_iff`), a pass keeps places (`Descends.find?`),
unescaping undoes escaping (`unescapeText_escape`), and a text that was escaped goes through any passes and comes out
as it was meant (`escaped_end_to_end`).
-/

namespace Groundwork

/-! ### Replacing parts of texts -/

namespace Text

variable {part new s : List Char}

theorem contains_eq_false_iff : contains part s = false ↔ cut part s = none := by
  unfold contains
  cases cut part s with
  | none => exact iff_of_true rfl rfl
  | some parts => exact iff_of_false (by simp) (by simp)

theorem replace_of_cut_eq_none (h : cut part s = none) : replace part new s = s := by
  rw [replace]
  split
  · rfl
  · rw [h]

theorem replace_of_cut {p : Char} {sep a b : List Char} (h : cut (p :: sep) s = some (a, b)) :
    replace (p :: sep) new s = a ++ new ++ replace (p :: sep) new b := by
  rw [replace, if_neg (by simp), h]

theorem replace_append (hpart : part ≠ []) : replace part new (part ++ s) = new ++ replace part new s := by
  obtain ⟨p, sep, rfl⟩ := List.exists_cons_of_ne_nil hpart
  have hcut : cut (p :: sep) (p :: sep ++ s) = some ([], s) := by
    rw [List.cons_append, cut, ← List.cons_append, dropStart_append_self]
  rw [replace_of_cut hcut, List.nil_append]

theorem replace_cons {c : Char} (h : dropStart part (c :: s) = none) :
    replace part new (c :: s) = c :: replace part new s := by
  cases part with
  | nil => cases h
  | cons p sep =>
    cases hcut : cut (p :: sep) s with
    | none => rw [replace_of_cut_eq_none hcut, replace_of_cut_eq_none (by rw [cut, h, hcut]; rfl)]
    | some parts =>
      obtain ⟨a, b⟩ := parts
      rw [replace_of_cut hcut, replace_of_cut (a := c :: a) (b := b) (by rw [cut, h, hcut]; rfl)]
      rfl

/-- Whether the second text is the first with one separator in the place of another: the pieces between, which do
not contain the old one, stay. -/
def Exchanged (old new s t : List Char) : Prop :=
  ∃ pieces : List (List Char), pieces ≠ [] ∧ (∀ p ∈ pieces, contains old p = false) ∧
    s = old.intercalate pieces ∧ t = new.intercalate pieces

theorem Exchanged.length_le {old t : List Char} (h : Exchanged old new s t) (hle : new.length ≤ old.length) :
    t.length ≤ s.length := by
  obtain ⟨pieces, -, -, rfl, rfl⟩ := h
  induction pieces with
  | nil => exact Nat.le_refl _
  | cons q pieces ih =>
    by_cases hne : pieces = []
    · rw [hne, List.intercalate_singleton, List.intercalate_singleton]
    · rw [List.intercalate_cons_of_ne_nil hne, List.intercalate_cons_of_ne_nil hne]
      simp only [List.length_append]
      omega

/-- **Replacing exchanges a separator and nothing else.** -/
theorem exchanged_replace (p : Char) (sep new s : List Char) :
    Exchanged (p :: sep) new s (replace (p :: sep) new s) := by
  -- what follows the first separator is shorter
  induction hlength : s.length using Nat.strong_induction_on generalizing s with
  | h n ih =>
    cases hcut : cut (p :: sep) s with
    | none =>
      refine ⟨[s], List.cons_ne_nil _ _, fun q hq => ?_, List.intercalate_singleton.symm, ?_⟩
      · rw [List.mem_singleton.1 hq]
        exact contains_eq_false_iff.2 hcut
      · rw [replace_of_cut_eq_none hcut, List.intercalate_singleton]
    | some parts =>
      obtain ⟨a, b⟩ := parts
      have hshorter : b.length < n := by
        have := cut_length hcut
        rw [List.length_cons] at this
        omega
      obtain ⟨pieces, hne, hfree, hb, hnew⟩ := ih b.length hshorter b rfl
      refine ⟨a :: pieces, List.cons_ne_nil _ _, fun q hq => ?_, ?_, ?_⟩
      · rcases List.mem_cons.1 hq with rfl | hq
        · exact contains_of_cut hcut
        · exact hfree q hq
      · rw [List.intercalate_cons_of_ne_nil hne, ← hb]
        exact cut_eq hcut
      · rw [List.intercalate_cons_of_ne_nil hne, ← hnew]
        exact replace_of_cut hcut

/-- A text stays as it is under a shorter replacement exactly if there is nothing to replace. -/
theorem replace_eq_self_iff {p : Char} {sep : List Char} (hlt : new.length < (p :: sep).length) :
    replace (p :: sep) new s = s ↔ contains (p :: sep) s = false := by
  rw [contains_eq_false_iff]
  cases hcut : cut (p :: sep) s with
  | none => exact iff_of_true (replace_of_cut_eq_none hcut) rfl
  | some parts =>
    obtain ⟨a, b⟩ := parts
    refine iff_of_false (fun h => ?_) (Option.some_ne_none _)
    have hlength := congrArg List.length h
    have htail := (exchanged_replace p sep new b).length_le hlt.le
    have hwhole := cut_length hcut
    rw [replace_of_cut hcut] at hlength
    simp only [List.length_append] at hlength
    omega

end Text

/-! ### Places -/

/-- Whether a function on values goes through items and fields, and leaves them in their places. -/
structure Descends (g : Value → Value) : Prop where
  items : ∀ items, g (.arr items) = .arr (items.map g)
  fields : ∀ fields : Table Value, g (.obj fields) = .obj (fields.mapValues g)

namespace Descends

variable {g h : Value → Value}

theorem comp (hg : Descends g) (hh : Descends h) : Descends fun v => g (h v) where
  items items := by
    rw [hh.items, hg.items, List.map_map]
    rfl
  fields fields := by
    rw [hh.fields, hg.fields, Table.mapValues, Table.mapValues, List.map_map]
    rfl

theorem step? (hg : Descends g) {v w : Value} {s : Step} (h : Path.step? v s = some w) :
    Path.step? (g v) s = some (g w) := by
  have hfield : ∀ {fields : Table Value} {k : String}, fields.lookup k = some w →
      (fields.mapValues g).lookup k = some (g w) := by
    intro fields k hk
    rw [Table.lookup_mapValues, hk]
    rfl
  have hitem : ∀ {items : List Value} {i : Nat}, items[i]? = some w → (items.map g)[i]? = some (g w) := by
    intro items i hi
    rw [List.getElem?_map, hi]
    rfl
  cases s with
  | field name =>
    cases v with
    | obj fields =>
      rw [hg.fields]
      exact hfield h
    | arr items =>
      obtain ⟨i, hi, hw⟩ := Option.bind_eq_some_iff.1 h
      rw [hg.items]
      exact Option.bind_eq_some_iff.2 ⟨i, hi, hitem hw⟩
    | _ => cases h
  | index n =>
    cases v with
    | obj fields =>
      rw [hg.fields]
      exact hfield h
    | arr items =>
      rw [hg.items]
      exact hitem h
    | _ => cases h

/-- **What becomes of a part is found where the part was.** -/
theorem find? (hg : Descends g) {v w : Value} {p : Path} (h : Path.find? v p = some w) :
    Path.find? (g v) p = some (g w) := by
  induction p generalizing v with
  | nil =>
    cases h
    rfl
  | cons s p ih =>
    obtain ⟨x, hx, hw⟩ := Option.bind_eq_some_iff.1 h
    exact Option.bind_eq_some_iff.2 ⟨g x, hg.step? hx, ih hw⟩

end Descends

namespace Template

theorem descends_splice (f : String → Option Value) : Descends (splice f) :=
  ⟨splice_arr f, splice_obj f⟩

theorem descends_unescape : Descends unescape where
  items items := by
    have hitems : ∀ items : List Value, unescape.unescapeItems items = items.map unescape := by
      intro items
      induction items with
      | nil => rfl
      | cons v vs ih => rw [unescape.unescapeItems, ih, List.map_cons]
    rw [unescape, hitems]
  fields fields := by
    have hfields : ∀ fields : Table Value, unescape.unescapeFields fields = fields.mapValues unescape := by
      intro fields
      induction fields with
      | nil => rfl
      | cons p fields ih =>
        rw [unescape.unescapeFields, ih]
        rfl
    rw [unescape, hfields]

/-! ### Literal openers -/

/-- How an opener is written that does not open a token. -/
def literalOpener : List Char := ['$', '$', '\x7b']

/-- What it stands for. -/
def opener : List Char := ['$', '\x7b']

/-- **Unescaping exchanges the literal openers of a text**, each for what it stands for, and keeps all else. -/
theorem exchanged_unescapeText (s : String) :
    Text.Exchanged literalOpener opener s.toList (unescapeText s).toList := by
  rw [unescapeText, String.toList_ofList]
  exact Text.exchanged_replace '$' ['$', '\x7b'] opener s.toList

/-- A text stays as it is exactly if it has no literal opener. -/
theorem unescapeText_eq_self_iff {s : String} :
    unescapeText s = s ↔ Text.contains literalOpener s.toList = false := by
  have hreplace : Text.replace literalOpener opener s.toList = s.toList ↔
      Text.contains literalOpener s.toList = false := Text.replace_eq_self_iff (by decide)
  rw [← hreplace, ← String.toList_inj, unescapeText, String.toList_ofList]
  rfl

/-- Whether no text of a value has a literal opener in it. -/
def Unescaped (v : Value) : Prop := ∀ s ∈ v.texts, Text.contains literalOpener s.toList = false

instance : DecidablePred Unescaped := fun v =>
  inferInstanceAs (Decidable (∀ s ∈ v.texts, Text.contains literalOpener s.toList = false))

theorem unescaped_arr_iff {items : List Value} : Unescaped (.arr items) ↔ ∀ v ∈ items, Unescaped v := by
  rw [Unescaped, Value.texts_arr, List.forall_mem_flatMap]
  rfl

theorem unescaped_obj_iff {fields : Table Value} : Unescaped (.obj fields) ↔ ∀ p ∈ fields, Unescaped p.2 := by
  rw [Unescaped, Value.texts_obj, List.forall_mem_flatMap]
  rfl

/-- **A value stays as it is exactly if it has no literal opener**, wherever its texts came from. -/
theorem unescape_eq_self_iff : ∀ v : Value, unescape v = v ↔ Unescaped v
  | .null => iff_of_true rfl nofun
  | .bool _ => iff_of_true rfl nofun
  | .num _ => iff_of_true rfl nofun
  | .str s => by
    have htexts : Unescaped (.str s) ↔ Text.contains literalOpener s.toList = false := List.forall_mem_singleton
    rw [unescape, Value.str.injEq, unescapeText_eq_self_iff, htexts]
  | .arr items => by
    rw [descends_unescape.items, Value.arr.injEq, map_eq_self_iff, unescaped_arr_iff]
    exact forall₂_congr fun v _ => unescape_eq_self_iff v
  | .obj fields => by
    rw [descends_unescape.fields, Value.obj.injEq, Table.mapValues, map_eq_self_iff, unescaped_obj_iff]
    refine forall₂_congr fun p hp => ?_
    have hsize := Value.sizeOf_lt_of_mem hp
    rw [← unescape_eq_self_iff p.2, Prod.ext_iff]
    exact and_iff_right rfl
termination_by v => sizeOf v

/-! ### Openers -/

theorem dropStart_opener_eq_none_iff {c : Char} {s : List Char} :
    Text.dropStart opener (c :: s) = none ↔ ¬ (c = '$' ∧ s.head? = some '\x7b') := by
  cases s <;> simp [opener, Text.dropStart, eq_comm]

/-- A text is read opener by opener, and character by character between them. -/
theorem opener_induction {motive : List Char → Prop} (nil : motive [])
    (opener : ∀ s, motive s → motive (opener ++ s))
    (char : ∀ c s, Text.dropStart Template.opener (c :: s) = none → motive s → motive (c :: s)) (s : List Char) :
    motive s := by
  induction hlength : s.length using Nat.strongRecOn generalizing s with
  | _ n ih =>
  subst hlength
  cases s with
  | nil => exact nil
  | cons c s =>
    cases hstart : Text.dropStart Template.opener (c :: s) with
    | none => exact char c s hstart (ih s.length (Nat.lt_succ_self _) s rfl)
    | some rest =>
      have hs := Text.dropStart_eq hstart
      rw [hs]
      refine opener rest (ih rest.length ?_ rest rfl)
      rw [hs, List.length_append]
      exact Nat.lt_add_of_pos_left (by decide)

/-! ### Escaped texts -/

/-- The characters of a text with a dollar sign in front of each opener. -/
def escapeChars (s : List Char) : List Char := Text.replace opener literalOpener s

/-- A text with a dollar sign in front of each opener. -/
def escape (s : String) : String := String.ofList (escapeChars s.toList)

theorem escapeChars_nil : escapeChars [] = [] := Text.replace_of_cut_eq_none rfl

theorem escapeChars_opener (s : List Char) : escapeChars (opener ++ s) = literalOpener ++ escapeChars s :=
  Text.replace_append (List.cons_ne_nil _ _)

theorem escapeChars_cons {c : Char} {s : List Char} (h : Text.dropStart opener (c :: s) = none) :
    escapeChars (c :: s) = c :: escapeChars s := Text.replace_cons h

theorem head?_escapeChars (s : List Char) : (escapeChars s).head? = s.head? := by
  induction s using opener_induction with
  | nil => rw [escapeChars_nil]
  | opener s _ =>
    rw [escapeChars_opener]
    rfl
  | char c s h _ => rw [escapeChars_cons h, List.head?_cons, List.head?_cons]

/-- An escaped text does not begin with an opener: it has two dollar signs where there was one. -/
theorem dropStart_opener_escapeChars (s : List Char) : Text.dropStart opener (escapeChars s) = none := by
  induction s using opener_induction with
  | nil =>
    rw [escapeChars_nil]
    rfl
  | opener s _ =>
    rw [escapeChars_opener]
    rfl
  | char c s h _ =>
    rw [escapeChars_cons h, dropStart_opener_eq_none_iff, head?_escapeChars]
    exact dropStart_opener_eq_none_iff.1 h

/-- **An escaped text has no tokens**, whatever comes before it. -/
theorem expressions_scan_escapeChars (s text : List Char) (dollar : Bool) :
    expressions (scan text dollar (escapeChars s)) = [] := by
  induction s using opener_induction generalizing text dollar with
  | nil =>
    rw [escapeChars_nil, scan]
    exact expressions_flush text
  | opener s ih =>
    have hchars : literalOpener ++ escapeChars s = '$' :: '$' :: '\x7b' :: escapeChars s := rfl
    rw [escapeChars_opener, hchars, expressions_scan_cons text dollar (by simp), decide_eq_true rfl,
      expressions_scan_escaped]
    exact ih _ _
  | char c s h ih =>
    have hplain : ¬ (c = '$' ∧ (escapeChars s).head? = some '\x7b') := by
      rw [head?_escapeChars]
      exact dropStart_opener_eq_none_iff.1 h
    rw [escapeChars_cons h, expressions_scan_cons text dollar hplain]
    exact ih _ _

/-- **Unescaping undoes escaping.** -/
theorem unescapeText_escape (s : String) : unescapeText (escape s) = s := by
  have hchars : ∀ t, Text.replace literalOpener opener (escapeChars t) = t := by
    intro t
    induction t using opener_induction with
    | nil =>
      rw [escapeChars_nil]
      exact Text.replace_of_cut_eq_none rfl
    | opener t ih =>
      have hne : literalOpener ≠ [] := by decide
      rw [escapeChars_opener, Text.replace_append hne, ih]
    | char c t h ih =>
      -- a literal opener here would leave an opener at the front of the rest
      have hfront : Text.dropStart literalOpener (c :: escapeChars t) = none := by
        show (if '$' = c then Text.dropStart opener (escapeChars t) else none) = none
        rw [dropStart_opener_escapeChars, ite_self]
      rw [escapeChars_cons h, Text.replace_cons hfront, ih]
  rw [← String.toList_inj, unescapeText, escape, String.toList_ofList, String.toList_ofList]
  exact hchars s.toList

theorem mapExpressions_of_expressions_eq_nil {m : Type → Type} [Monad m] {s : String}
    (h : expressions (parse s) = []) (r : String → m (Option Value)) :
    mapExpressions r (.str s) = pure (.str s) := by
  rw [mapExpressions, mapText, hasExpressions, h]
  rfl

/-- Any number of passes leave a text without tokens as it is. -/
theorem foldlM_mapExpressions {m : Type → Type} [Monad m] [LawfulMonad m] {s : String}
    (h : expressions (parse s) = []) (rs : List (String → m (Option Value))) :
    rs.foldlM (fun v r => mapExpressions r v) (.str s) = pure (.str s) := by
  induction rs with
  | nil => rfl
  | cons r rs ih => rw [List.foldlM_cons, mapExpressions_of_expressions_eq_nil h, pure_bind, ih]

/-- **What was written literally comes out as it was meant.**  An escaped text has no tokens, so that passes with any
resolvers leave it as it is, and it is unescaped to what was escaped. -/
theorem escaped_end_to_end {σ ε : Type} (s : String) (rs : List (String → StateT σ (Except ε) (Option Value))) :
    expressions (parse (escape s)) = [] ∧
      rs.foldlM (fun v r => mapExpressions r v) (.str (escape s)) = pure (.str (escape s)) ∧
      unescape (.str (escape s)) = .str s := by
  have hnone : expressions (parse (escape s)) = [] := by
    rw [parse, escape, String.toList_ofList]
    exact expressions_scan_escapeChars _ _ _
  refine ⟨hnone, foldlM_mapExpressions hnone rs, ?_⟩
  rw [unescape, unescapeText_escape]

/-- Dollar signs in a row, a literal opener and a brace that is not closed. -/
example : escape "$$$\x7b a \x7d $\x7b" = "$$$$\x7b a \x7d $$\x7b" := by decide +kernel

end Template

end Groundwork
