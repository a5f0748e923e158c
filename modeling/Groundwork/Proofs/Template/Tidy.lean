import Groundwork.Path
import Groundwork.Proofs.Template.Recoloring

/-!
# Texts that can be put together

Values are put in the place of tokens as text, and the text that comes of it is searched for tokens again.  A
text is tidy if each of its dollar signs begins a token or lies within one, and no token holds the end of a
token.  Tidy texts do not disturb each other: joined, they have the tokens of the first and then those of the
second.  Other texts can: a dollar sign at the end of one makes the first token of the next literal.

Main statements: joined texts of whole tokens have the tokens of both (`Reads.append`), and such texts are just the
tidy ones (`reads_of_tidyText`, `tidyText_of_reads`).
-/

namespace Groundwork

/-! ### Prefixes -/

namespace Text

theorem dropStart_append {p s r : List Char} (h : dropStart p s = some r) (t : List Char) :
    dropStart p (s ++ t) = some (r ++ t) := by
  induction p generalizing s with
  | nil =>
    cases h
    rfl
  | cons a p ih =>
    cases s with
    | nil => cases h
    | cons c s =>
      rw [dropStart] at h
      split at h
      · rename_i hac
        rw [List.cons_append, dropStart, if_pos hac]
        exact ih h
      · cases h

/-- The first pair of characters in a text is the first one in a longer text too. -/
theorem cut_append {a b : Char} {s x y : List Char} (h : cut [a, b] s = some (x, y)) (t : List Char) :
    cut [a, b] (s ++ t) = some (x, y ++ t) := by
  induction s generalizing x with
  | nil => cases h
  | cons c s ih =>
    rw [List.cons_append]
    unfold cut at h ⊢
    cases hstart : dropStart [a, b] (c :: s) with
    | some rest =>
      rw [hstart] at h
      cases h
      rw [← List.cons_append, dropStart_append hstart]
    | none =>
      rw [hstart] at h
      obtain ⟨⟨x', y'⟩, hcut, hparts⟩ := Option.map_eq_some_iff.1 h
      cases hparts
      -- the pair comes later, so the text goes on for the two characters that are compared here
      have hlater : dropStart [a, b] (c :: (s ++ t)) = none := by
        cases s with
        | nil => cases hcut
        | cons d s => simpa [dropStart] using hstart
      rw [hlater, ih hcut]
      rfl

end Text

namespace Template

theorem prepend_eq_some {w a b : List Char} {x : Option (List Char × List Char)}
    (h : prepend w x = some (a, b)) : ∃ a', x = some (a', b) ∧ a = w ++ a' := by
  obtain ⟨⟨a', b'⟩, hx, hparts⟩ := Option.map_eq_some_iff.1 h
  cases hparts
  exact ⟨a', hx, rfl⟩

/-- The brace that closes a token closes it in a longer text too. -/
theorem takeBraced_append (t : List Char) : ∀ (s : List Char) (depth : Nat) (q : Option Char), Quoting q →
    (∀ a b, takeBraced depth q s = some (a, b) → takeBraced depth q (s ++ t) = some (a, b ++ t)) ∧
      ∀ a b, takeEscaped depth q s = some (a, b) → takeEscaped depth q (s ++ t) = some (a, b ++ t) := by
  intro s
  induction s with
  | nil =>
    intro depth q hq
    refine ⟨fun a b h => ?_, fun a b h => by cases h⟩
    rw [takeBraced] at h
    cases h
  | cons c s ih =>
    intro depth q hq
    constructor
    · intro a b h
      rw [List.cons_append]
      rcases takeBraced_cons depth hq c with hend | ⟨depth', q', hq', hstep⟩ | hescape
      · rw [hend] at h ⊢
        cases h
        rfl
      · rw [hstep] at h ⊢
        obtain ⟨a', ha', rfl⟩ := prepend_eq_some h
        rw [(ih depth' q' hq').1 a' b ha']
        rfl
      · rw [hescape] at h ⊢
        obtain ⟨a', ha', rfl⟩ := prepend_eq_some h
        rw [(ih depth q hq).2 a' b ha']
        rfl
    · intro a b h
      obtain ⟨a', ha', rfl⟩ := prepend_eq_some (w := [c]) h
      show prepend [c] (takeBraced depth q (s ++ t)) = _
      rw [(ih depth q hq).1 a' b ha']
      rfl

/-- **A token at the front of a text is at the front of a longer text too.** -/
theorem takeToken_append {s e rest : List Char} (h : takeToken s = some (e, rest)) (t : List Char) :
    takeToken (s ++ t) = some (e, rest ++ t) := by
  by_cases hopen : s.head? = some '\x7b'
  · obtain ⟨s', rfl⟩ := List.head?_eq_some_iff.1 hopen
    exact Text.cut_append h t
  · rw [takeToken_of_head hopen] at h
    have hlonger : (s ++ t).head? ≠ some '\x7b' := by
      cases s with
      | nil =>
        rw [takeBraced] at h
        cases h
      | cons c s => exact hopen
    rw [takeToken_of_head hlonger]
    exact (takeBraced_append t s 0 none quoting_none).1 e rest h

/-! ### Tidy texts -/

/-- Whether an expression is free of the end of a token. -/
def IsWhole (e : String) : Prop := Text.contains ['\x7d', '\x7d'] e.toList = false

instance : DecidablePred IsWhole := fun _ => inferInstanceAs (Decidable (_ = _))

/-- Whether a piece of a text can stand beside any other: literal text without dollar signs, or a token that
does not hold the end of a token. -/
def TidySegment : Segment → Prop
  | .text s => '$' ∉ s.toList
  | .expr e => IsWhole e

instance : DecidablePred TidySegment
  | .text _ => inferInstanceAs (Decidable (_ ∉ _))
  | .expr e => inferInstanceAs (Decidable (IsWhole e))

/-- Whether each dollar sign of a text begins a token or lies within one, and no token holds the end of a
token. -/
def TidyText (s : String) : Prop := ∀ x ∈ parse s, TidySegment x

instance : DecidablePred TidyText := fun s => inferInstanceAs (Decidable (∀ x ∈ parse s, TidySegment x))

/-- Whether a text consists of whole tokens with the given expressions and of other characters that are no
dollar signs. -/
inductive Reads : List Char → List String → Prop
  | nil : Reads [] []
  | char {c : Char} {s : List Char} {l : List String} (hc : c ≠ '$') (h : Reads s l) : Reads (c :: s) l
  | token {s e rest : List Char} {l : List String} (htake : takeToken s = some (e, rest))
      (hwhole : IsWhole (String.ofList (Text.trim e))) (h : Reads rest l) :
      Reads ('$' :: '\x7b' :: s) (String.ofList (Text.trim e) :: l)

theorem Reads.of_not_mem {s : List Char} (h : '$' ∉ s) : Reads s [] := by
  induction s with
  | nil => exact .nil
  | cons c s ih =>
    simp only [List.mem_cons, not_or] at h
    exact .char (Ne.symm h.1) (ih h.2)

/-- **Joined texts have the tokens of both.** -/
theorem Reads.append {s t : List Char} {l k : List String} (h : Reads s l) (h' : Reads t k) :
    Reads (s ++ t) (l ++ k) := by
  induction h with
  | nil => exact h'
  | char hc _ ih => exact .char hc ih
  | token htake hwhole _ ih => exact .token (takeToken_append htake t) hwhole ih

theorem Reads.plain {s : List Char} {l : List String} (h : Reads s l) : ∀ e ∈ l, Plain e := by
  induction h with
  | nil => exact fun e he => by cases he
  | char _ _ ih => exact ih
  | token _ hwhole _ ih =>
    intro x hx
    rcases List.mem_cons.1 hx with rfl | hx
    · exact ⟨by rw [String.toList_ofList, Text.trim_trim], hwhole⟩
    · exact ih x hx

theorem Reads.expressions_scan {s : List Char} {l : List String} (h : Reads s l) (text : List Char) :
    expressions (scan text false s) = l := by
  induction h generalizing text with
  | nil =>
    rw [scan]
    exact expressions_flush text
  | char hc _ ih =>
    rw [expressions_scan_cons text false fun hopen => hc hopen.1, decide_eq_false hc]
    exact ih _
  | token htake _ _ ih => rw [expressions_scan_opener, htake, ← ih []]

theorem Reads.expressions_parse {s : String} {l : List String} (h : Reads s.toList l) :
    expressions (parse s) = l := h.expressions_scan []

/-- The token of a plain expression. -/
theorem reads_renderToken {e : String} (h : Plain e) : Reads (renderToken e).toList [e] := by
  have hexpression : String.ofList (Text.trim (' ' :: (e.toList ++ [' ']))) = e := by
    rw [trim_pad h.1, String.ofList_toList]
  have htoken := Reads.token (takeToken_tokenTail h []) (by rw [hexpression]; exact h.2) .nil
  rw [hexpression] at htoken
  rw [← List.append_nil (renderToken e).toList, renderToken_append]
  exact htoken

/-- Literal characters come out in some literal piece. -/
theorem exists_text_of_mem_scan (text : List Char) (dollar : Bool) (s : List Char) {c : Char} (hc : c ∈ text) :
    ∃ t, Segment.text t ∈ scan text dollar s ∧ c ∈ t.toList := by
  have hflush : ∀ {u : List Char} (l : List Segment), c ∈ u →
      ∃ t, Segment.text t ∈ flush u ++ l ∧ c ∈ t.toList := by
    intro u l hu
    cases u with
    | nil => cases hu
    | cons d u =>
      refine ⟨String.ofList (d :: u).reverse, List.mem_append_left _ (List.mem_singleton.2 rfl), ?_⟩
      rw [String.toList_ofList, List.mem_reverse]
      exact hu
  fun_induction scan text dollar s with
  | case1 text dollar => simpa using hflush [] hc
  | case2 text dollar d => simpa using hflush [] (List.mem_cons_of_mem d hc)
  | case3 text c d cs hopen ih => exact ih (List.mem_cons_of_mem _ (List.mem_cons_of_mem _ hc))
  | case4 text dollar c d cs hopen hdollar e rest htake ih => exact hflush _ hc
  | case5 text dollar c d cs hopen hdollar htake =>
    simpa using hflush [] (List.mem_append_right _ (List.mem_cons_of_mem _ (List.mem_cons_of_mem _ hc)))
  | case6 text dollar c d cs hopen ih => exact ih (List.mem_cons_of_mem _ hc)

/-- A text whose pieces are tidy consists of its tokens and of characters that are no dollar signs. -/
theorem reads_of_scan (text : List Char) (dollar : Bool) (s : List Char) (hdollar : dollar = true → '$' ∈ text)
    (h : ∀ x ∈ scan text dollar s, TidySegment x) : Reads s (expressions (scan text dollar s)) := by
  have hnone : ∀ {u : List Char} {b : Bool} {r : List Char}, (∀ x ∈ scan u b r, TidySegment x) → '$' ∉ u := by
    intro u b r hu hmem
    obtain ⟨t, ht, htext⟩ := exists_text_of_mem_scan u b r hmem
    exact hu _ ht htext
  have hflush : ∀ {u : List Char} {l : List Segment}, (∀ x ∈ flush u ++ l, TidySegment x) → '$' ∉ u := by
    intro u l hu hmem
    cases u with
    | nil => cases hmem
    | cons d u =>
      refine hu _ (List.mem_append_left _ (List.mem_singleton.2 rfl)) ?_
      rw [String.toList_ofList, List.mem_reverse]
      exact hmem
  fun_induction scan text dollar s with
  | case1 text dollar =>
    rw [expressions_flush]
    exact .nil
  | case2 text dollar c =>
    have hc : '$' ∉ c :: text := hflush (l := []) (by simpa using h)
    rw [expressions_flush]
    exact .char (fun e => hc (e ▸ List.mem_cons_self)) .nil
  | case3 text c d cs hopen ih =>
    -- an escape needs a dollar sign before it
    exact absurd (List.mem_cons_of_mem _ (List.mem_cons_of_mem _ (hdollar rfl))) (hnone h)
  | case4 text dollar c d cs hopen _ e rest htake ih =>
    obtain ⟨rfl, rfl⟩ := hopen
    rw [expressions_append, expressions_flush, List.nil_append, expressions]
    have hwhole : TidySegment (.expr (String.ofList (Text.trim e))) := h _ (by simp)
    exact .token htake hwhole (ih (fun e => by cases e) fun x hx => h x (by simp [hx]))
  | case5 text dollar c d cs hopen _ htake =>
    refine absurd ?_ (hflush (l := []) (by simpa using h))
    rw [hopen.1]
    exact List.mem_append_right _ (List.mem_cons_of_mem _ List.mem_cons_self)
  | case6 text dollar c d cs hopen ih =>
    have hc : c ≠ '$' := fun e => hnone h (e ▸ List.mem_cons_self)
    exact .char hc (ih (fun e => absurd (of_decide_eq_true e) hc) h)

theorem reads_of_tidyText {s : String} (h : TidyText s) : Reads s.toList (expressions (parse s)) :=
  reads_of_scan [] false s.toList (fun e => by cases e) h

/-- The expressions of a tidy text are plain. -/
theorem plain_of_tidyText {s : String} (h : TidyText s) : ∀ e ∈ expressions (parse s), Plain e :=
  (reads_of_tidyText h).plain

/-- Reading back: what consists of whole tokens and of other characters is tidy. -/
theorem Reads.tidy_scan {s : List Char} {l : List String} (h : Reads s l) (text : List Char) (ht : '$' ∉ text) :
    ∀ x ∈ scan text false s, TidySegment x := by
  have hflush : ∀ {u : List Char}, '$' ∉ u → ∀ x ∈ flush u, TidySegment x := by
    intro u hu x hx
    unfold flush at hx
    split at hx
    · cases hx
    · rw [List.mem_singleton.1 hx]
      show '$' ∉ (String.ofList u.reverse).toList
      rw [String.toList_ofList, List.mem_reverse]
      exact hu
  induction h generalizing text with
  | nil =>
    rw [scan]
    exact hflush ht
  | @char c s l hc _ ih =>
    have hmem : '$' ∉ c :: text := by
      rw [List.mem_cons, not_or]
      exact ⟨Ne.symm hc, ht⟩
    rw [scan_cons text false fun hopen => hc hopen.1, decide_eq_false hc]
    exact ih _ hmem
  | @token s e rest l htake hwhole _ ih =>
    intro x hx
    rw [scan_token text htake] at hx
    rcases List.mem_append.1 hx with hx | hx
    · exact hflush ht x hx
    · rcases List.mem_cons.1 hx with rfl | hx
      · exact hwhole
      · exact ih [] List.not_mem_nil x hx

theorem tidyText_of_reads {s : String} {l : List String} (h : Reads s.toList l) : TidyText s :=
  h.tidy_scan [] List.not_mem_nil

end Template

end Groundwork
