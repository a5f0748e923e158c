import Groundwork.Template
import Groundwork.Proofs.Data.Sorted

/-!
# Rewriting tokens

A pass over a text that puts other expressions in the place of its tokens writes every token in canonical
form.  If the new expressions are plain, with no blank at either end and no two closing braces in a row,
the new text has just these tokens, and between them what stood there before.

Main statement: a text with rewritten tokens parses as the rewritten segments (`parse_rewritten`).
-/

namespace Groundwork

/-! ### Texts -/

namespace Text

theorem contains_cons (part : List Char) (c : Char) (s : List Char) :
    contains part (c :: s) = ((dropStart part (c :: s)).isSome || contains part s) := by
  rw [contains, cut]
  cases dropStart part (c :: s) with
  | some rest => rfl
  | none =>
    show ((cut part s).map fun p => (c :: p.1, p.2)).isSome = (false || contains part s)
    rw [Option.isSome_map, Bool.false_or, contains]

theorem subset_of_contains {part s : List Char} (h : contains part s = true) : part ⊆ s := by
  obtain ⟨⟨a, b⟩, hcut⟩ := Option.isSome_iff_exists.1 h
  rw [cut_eq hcut]
  exact fun c hc => List.mem_append_left b (List.mem_append_right a hc)

theorem contains_of_not_mem {c : Char} {part s : List Char} (h : c ∉ s) : contains (c :: part) s = false := by
  rw [Bool.eq_false_iff]
  exact fun hcontains => h (subset_of_contains hcontains List.mem_cons_self)

theorem contains_append_right {part s t : List Char} (h : contains part (s ++ t) = false) :
    contains part t = false := by
  induction s with
  | nil => exact h
  | cons c s ih =>
    rw [List.cons_append, contains_cons, Bool.or_eq_false_iff] at h
    exact ih h.2

/-- A pair of characters lies on one side of another character between two texts. -/
theorem contains_join {a b c : Char} (ha : a ≠ c) (hb : b ≠ c) {s t : List Char} (hs : contains [a, b] s = false)
    (ht : contains [a, b] t = false) : contains [a, b] (s ++ c :: t) = false := by
  induction s with
  | nil =>
    rw [List.nil_append, contains_cons, ht]
    simp [dropStart, ha]
  | cons x s ih =>
    rw [contains_cons, Bool.or_eq_false_iff] at hs
    rw [List.cons_append, contains_cons, ih hs.2, Bool.or_false]
    cases s with
    | nil => simp [dropStart, hb]
    | cons y s => simpa [dropStart] using hs.1

end Text

namespace Template

/-! ### Scanning -/

/-- An opener whose token ends is cut off with what was read before. -/
theorem scan_token (text : List Char) {s e rest : List Char} (htake : takeToken s = some (e, rest)) :
    scan text false ('$' :: '\x7b' :: s)
      = flush text ++ .expr (String.ofList (Text.trim e)) :: scan [] false rest := by
  rw [scan, if_pos ⟨rfl, rfl⟩, if_neg Bool.false_ne_true]
  split
  · rename_i htake'
    rw [htake] at htake'
    cases htake'
    rfl
  · rename_i htake'
    rw [htake] at htake'
    cases htake'

/-- An opener whose token does not end is literal with all that follows. -/
theorem scan_unclosed (text : List Char) {s : List Char} (htake : takeToken s = none) :
    scan text false ('$' :: '\x7b' :: s) = flush (s.reverse ++ '\x7b' :: '$' :: text) := by
  rw [scan, if_pos ⟨rfl, rfl⟩, if_neg Bool.false_ne_true]
  split
  · rename_i htake'
    rw [htake] at htake'
    cases htake'
  · rfl

/-- Any other character is literal, and a dollar sign may escape what follows. -/
theorem scan_cons (text : List Char) (dollar : Bool) {c : Char} {s : List Char}
    (h : ¬ (c = '$' ∧ s.head? = some '\x7b')) :
    scan text dollar (c :: s) = scan (c :: text) (c = '$') s := by
  cases s with
  | nil => rw [scan, scan]
  | cons d s => rw [scan, if_neg fun hopen => h ⟨hopen.1, by rw [hopen.2]; rfl⟩]

/-! ### Plain expressions -/

/-- Whether an expression reads back from its token: it has no blank at its ends and does not hold the end of
a token. -/
def Plain (e : String) : Prop :=
  Text.trim e.toList = e.toList ∧ Text.contains ['\x7d', '\x7d'] e.toList = false

instance : DecidablePred Plain := fun _ => inferInstanceAs (Decidable (_ ∧ _))

/-- The first end of a token after a text without one is the one that follows. -/
theorem cut_closer {e : List Char} (h : Text.contains ['\x7d', '\x7d'] e = false) (rest : List Char) :
    Text.cut ['\x7d', '\x7d'] (e ++ ' ' :: '\x7d' :: '\x7d' :: rest) = some (e ++ [' '], rest) := by
  induction e with
  | nil => rfl
  | cons c e ih =>
    rw [Text.contains_cons, Bool.or_eq_false_iff, Option.isSome_eq_false_iff, Option.isNone_iff_eq_none] at h
    obtain ⟨hstart, hrest⟩ := h
    -- the closing braces cannot begin within the expression
    have hlater : Text.dropStart ['\x7d', '\x7d'] (c :: e ++ ' ' :: '\x7d' :: '\x7d' :: rest) = none := by
      cases e with
      | nil => simp [Text.dropStart]
      | cons d e => simpa [Text.dropStart] using hstart
    show Text.cut _ (c :: (e ++ ' ' :: '\x7d' :: '\x7d' :: rest)) = _
    rw [Text.cut, show Text.dropStart ['\x7d', '\x7d'] (c :: (e ++ ' ' :: '\x7d' :: '\x7d' :: rest)) = none
      from hlater, ih hrest]
    rfl

theorem trim_pad {e : List Char} (h : Text.trim e = e) : Text.trim (' ' :: (e ++ [' '])) = e := by
  cases e with
  | nil => rfl
  | cons c e =>
    have hstart : Text.trimStart (' ' :: (c :: e ++ [' '])) = c :: e ++ [' '] := by
      rw [Text.trimStart, List.dropWhile_cons_of_pos (by decide)]
      refine Text.trimStart_eq_self fun d hd => ?_
      exact Text.head_trim (s := c :: e) (by rw [h]; exact hd)
    have hend : Text.trimEnd (c :: e ++ [' ']) = c :: e := by
      rw [Text.trimEnd, List.reverse_append, List.reverse_singleton, List.singleton_append,
        List.dropWhile_cons_of_pos (by decide)]
      refine Text.trimEnd_eq_self fun d hd => ?_
      exact Text.getLast_trim (s := c :: e) (by rw [h]; exact hd)
    rw [Text.trim, hstart, hend]

theorem expressions_flush (text : List Char) : expressions (flush text) = [] := by
  unfold flush
  split <;> rfl

theorem expressions_append (l m : List Segment) : expressions (l ++ m) = expressions l ++ expressions m := by
  induction l with
  | nil => rfl
  | cons s l ih => cases s <;> simp [expressions, ih]

theorem trim_of_mem_scan (text : List Char) (dollar : Bool) (s : List Char) :
    ∀ e ∈ expressions (scan text dollar s), Text.trim e.toList = e.toList := by
  fun_induction scan text dollar s with
  | case1 text dollar => simp [expressions_flush]
  | case2 text dollar c => simp [expressions_flush]
  | case3 text c d cs hopen ih => exact ih
  | case4 text dollar c d cs hopen hdollar e rest htake ih =>
    intro x hx
    rw [expressions_append, expressions_flush, List.nil_append, expressions] at hx
    rcases List.mem_cons.1 hx with rfl | hx
    · rw [String.toList_ofList, Text.trim_trim]
    · exact ih x hx
  | case5 text dollar c d cs hopen hdollar htake => simp [expressions_flush]
  | case6 text dollar c d cs hopen ih => exact ih

theorem visitItems_eq (vs : List Value) : visitExpressions.visitItems vs = vs.flatMap visitExpressions := by
  induction vs with
  | nil => rfl
  | cons v vs ih => rw [visitExpressions.visitItems, ih, List.flatMap_cons]

theorem visitFields_eq (vs : List (String × Value)) :
    visitExpressions.visitFields vs = vs.flatMap fun p => visitExpressions p.2 := by
  induction vs with
  | nil => rfl
  | cons p vs ih => rw [visitExpressions.visitFields, ih, List.flatMap_cons]

/-- The expressions of a value have no blanks at their ends. -/
theorem trim_of_mem_visitExpressions {v : Value} {e : String} (h : e ∈ visitExpressions v) :
    Text.trim e.toList = e.toList := by
  induction v using Value.induction_on with
  | null | bool | num => cases h
  | str s => exact trim_of_mem_scan [] false s.toList e h
  | arr items ih =>
    rw [visitExpressions, visitItems_eq] at h
    obtain ⟨v, hv, he⟩ := List.mem_flatMap.1 h
    exact ih v hv he
  | obj fields ih =>
    rw [visitExpressions, visitFields_eq] at h
    obtain ⟨p, hp, he⟩ := List.mem_flatMap.1 h
    exact ih p hp he

/-! ### Rewritten texts -/

variable (f : String → String)

/-- A segment with another expression in the place of its own. -/
def rewriteSegment : Segment → Segment
  | .text s => .text s
  | .expr e => .expr (f e)

/-- The characters of segments with other expressions, their tokens in canonical form. -/
def rewritten : List Segment → List Char
  | [] => []
  | .text s :: l => s.toList ++ rewritten l
  | .expr e :: l => (renderToken (f e)).toList ++ rewritten l

theorem rewritten_flush (text : List Char) (l : List Segment) :
    rewritten f (flush text ++ l) = text.reverse ++ rewritten f l := by
  unfold flush
  cases text with
  | nil => rfl
  | cons c text => simp [rewritten]

theorem rewritten_map (g : String → String) (l : List Segment) :
    rewritten g (l.map (rewriteSegment f)) = rewritten (g ∘ f) l := by
  induction l with
  | nil => rfl
  | cons s l ih => cases s <;> simp [rewritten, rewriteSegment, ih]

theorem map_rewriteSegment_flush (text : List Char) : (flush text).map (rewriteSegment f) = flush text := by
  unfold flush
  split <;> rfl

theorem expressions_map_rewriteSegment (l : List Segment) :
    expressions (l.map (rewriteSegment f)) = (expressions l).map f := by
  induction l with
  | nil => rfl
  | cons s l ih => cases s <;> simp [expressions, rewriteSegment, ih]

variable {f}

/-- The characters of a token, after its dollar sign and first brace. -/
def tokenTail (e : String) (rest : List Char) : List Char :=
  '\x7b' :: ' ' :: (e.toList ++ ' ' :: '\x7d' :: '\x7d' :: rest)

theorem renderToken_append (e : String) (rest : List Char) :
    (renderToken e).toList ++ rest = '$' :: '\x7b' :: tokenTail e rest := by
  simp [renderToken, tokenTail, String.toList_append]

/-- The token of a plain expression ends at its own closing braces. -/
theorem takeToken_tokenTail {e : String} (h : Plain e) (rest : List Char) :
    takeToken (tokenTail e rest) = some (' ' :: (e.toList ++ [' ']), rest) := by
  have hcontains : Text.contains ['\x7d', '\x7d'] (' ' :: e.toList) = false := by
    rw [Text.contains_cons, h.2, Bool.or_false]
    simp [Text.dropStart]
  exact cut_closer hcontains rest

/-- The token of a plain expression is cut off whole. -/
theorem scan_renderToken {e : String} (h : Plain e) (text rest : List Char) :
    scan text false ((renderToken e).toList ++ rest) = flush text ++ .expr e :: scan [] false rest := by
  rw [renderToken_append, scan_token text (takeToken_tokenTail h rest), trim_pad h.1, String.ofList_toList]

/-- The rest of a text with rewritten tokens: it begins like the rest of the text, and scanning it after the
same characters gives the rewritten segments. -/
theorem exists_scan_rewritten (text : List Char) (dollar : Bool) (s : List Char)
    (h : ∀ e ∈ expressions (scan text dollar s), Plain (f e)) :
    ∃ t, rewritten f (scan text dollar s) = text.reverse ++ t ∧ t.head? = s.head? ∧
      scan text dollar t = (scan text dollar s).map (rewriteSegment f) := by
  fun_induction scan text dollar s with
  | case1 text dollar =>
    refine ⟨[], ?_, rfl, ?_⟩
    · rw [← List.append_nil (flush text), rewritten_flush]
      rfl
    · rw [scan, map_rewriteSegment_flush]
  | case2 text dollar c =>
    refine ⟨[c], ?_, rfl, ?_⟩
    · rw [← List.append_nil (flush _), rewritten_flush]
      simp [rewritten]
    · rw [scan, map_rewriteSegment_flush]
  | case3 text c d cs hopen ih =>
    -- an escaped opener is literal
    obtain ⟨t, hrewritten, -, hscan⟩ := ih h
    refine ⟨c :: d :: t, ?_, rfl, ?_⟩
    · rw [hrewritten]
      simp
    · rw [scan, if_pos hopen, if_pos rfl, hscan]
  | case4 text dollar c d cs hopen hdollar e rest htake ih =>
    rw [expressions_append, expressions] at h
    obtain ⟨t, hrewritten, -, hscan⟩ := ih fun x hx => h x (by simp [hx])
    have hplain : Plain (f (String.ofList (Text.trim e))) := h _ (by simp)
    have hdollar : dollar = false := by simpa using hdollar
    subst hdollar
    refine ⟨(renderToken (f (String.ofList (Text.trim e)))).toList ++ t, ?_, ?_, ?_⟩
    · rw [rewritten_flush, rewritten, hrewritten]
      rfl
    · rw [hopen.1]
      simp [renderToken, String.toList_append]
    · rw [scan_renderToken hplain, hscan, List.map_append, map_rewriteSegment_flush]
      rfl
  | case5 text dollar c d cs hopen hdollar htake =>
    -- an opener without end makes all the rest literal
    obtain ⟨rfl, rfl⟩ := hopen
    rw [Bool.not_eq_true] at hdollar
    subst hdollar
    refine ⟨'$' :: '\x7b' :: cs, ?_, rfl, ?_⟩
    · rw [← List.append_nil (flush _), rewritten_flush]
      simp [rewritten]
    · rw [scan_unclosed text htake, map_rewriteSegment_flush]
  | case6 text dollar c d cs hopen ih =>
    obtain ⟨t, hrewritten, hhead, hscan⟩ := ih h
    cases t with
    | nil => cases hhead
    | cons d' t =>
      cases hhead
      refine ⟨c :: d :: t, ?_, rfl, ?_⟩
      · rw [hrewritten]
        simp
      · rw [scan, if_neg hopen, hscan]

/-- **A text with rewritten tokens parses as the rewritten segments.** -/
theorem parse_rewritten {s : String} (h : ∀ e ∈ expressions (parse s), Plain (f e)) :
    parse (String.ofList (rewritten f (parse s))) = (parse s).map (rewriteSegment f) := by
  obtain ⟨t, hrewritten, -, hscan⟩ := exists_scan_rewritten [] false s.toList h
  rw [parse, String.toList_ofList, show rewritten f (parse s) = t from hrewritten]
  exact hscan

end Template

end Groundwork
