import Groundwork.Context
import Groundwork.Guard
import Groundwork.Proofs.Guard.Acceptance

/-!
# One path, two readers

A path stands in a token, where `Path.parse?` reads it character by character, or in a guard, where it is cut into
tokens first.  The two know different texts: guards take blanks between tokens and a backslash in names, and the other
reader takes a word that begins with a digit, or a name with a mark of its own kind in it.  What both read as a path is
the same path, unless a backslash is in it.

So a token and a guard find the same value, except that what is missing is left in place by the one and null for the
other.  In a strict scope it is neither: there it is an error for the one, as null is.

Main statements: what both readers read is the same (`Guard.eq_of_both_read`), and so is what they find
(`Guard.both_find`).
-/

namespace Groundwork

/-! ### Parts of texts -/

namespace Text

theorem cut_of_not_mem {c : Char} {s : List Char} (h : c ∉ s) (t : List Char) :
    cut [c] (s ++ c :: t) = some (s, t) := by
  induction s with
  | nil => simp [cut, dropStart]
  | cons d s ih =>
    obtain ⟨hd, hs⟩ := not_or.1 fun hor => h (List.mem_cons.2 hor)
    simp [cut, dropStart, hd, ih hs]

/-- What stands between blanks, if it has none at its own ends. -/
theorem trim_between {a b s : List Char} (ha : ∀ c ∈ a, isBlank c = true) (hb : ∀ c ∈ b, isBlank c = true)
    (hne : s ≠ []) (hhead : ∀ c, s.head? = some c → isBlank c = false)
    (hlast : ∀ c, s.getLast? = some c → isBlank c = false) : trim (a ++ (s ++ b)) = s := by
  have hfront : trimStart (a ++ (s ++ b)) = s ++ b := by
    rw [trimStart, List.dropWhile_append_of_pos ha]
    refine trimStart_eq_self fun c hc => hhead c ?_
    cases s with
    | nil => exact absurd rfl hne
    | cons d s => exact hc
  rw [trim, hfront, trimEnd, List.reverse_append, List.dropWhile_append_of_pos (by simpa using hb)]
  exact trimEnd_eq_self hlast

end Text

namespace Guard

/-! ### The first token -/

theorem bounds_of_isAlpha {c : Char} (h : c.isAlpha = true) : 0x41 ≤ c.toNat ∧ c.toNat ≤ 0x7a := by
  have hranges : (decide (c.val ≥ 'A'.val ∧ c.val ≤ 'Z'.val) || c.val ≥ 'a'.val && c.val ≤ 'z'.val) = true := h
  simp only [Bool.or_eq_true, Bool.and_eq_true, decide_eq_true_eq, ge_iff_le, UInt32.le_iff_toNat_le] at hranges
  have hcodes : (0x41 ≤ c.toNat ∧ c.toNat ≤ 0x5a) ∨ 0x61 ≤ c.toNat ∧ c.toNat ≤ 0x7a := hranges
  omega

theorem bounds_of_isDigit {c : Char} (h : c.isDigit = true) : 0x30 ≤ c.toNat ∧ c.toNat ≤ 0x39 := by
  have hrange : (c.val ≥ '0'.val && c.val ≤ '9'.val) = true := h
  simp only [Bool.and_eq_true, decide_eq_true_eq, ge_iff_le, UInt32.le_iff_toNat_le] at hrange
  exact hrange

theorem isBlank_of_isWordChar {c : Char} (h : Path.isWordChar c = true) : Text.isBlank c = false := by
  have hn : 0x2d ≤ c.toNat ∧ c.toNat ≤ 0x7a := by
    simp only [Path.isWordChar, Char.isAlphanum, Bool.or_eq_true, decide_eq_true_eq] at h
    rcases h with ((h | h) | rfl) | rfl
    · have hbounds := bounds_of_isAlpha h
      omega
    · have hbounds := bounds_of_isDigit h
      omega
    · decide
    · decide
  simp only [Text.isBlank, Bool.or_eq_false_iff, Bool.and_eq_false_iff, decide_eq_false_iff_not]
  omega

theorem tokens_nil : tokens [] = .ok [] := by
  unfold tokens
  rfl

theorem tokens_cons_eq_ok {c : Char} {cs : List Char} {ts : List Token} (h : tokens (c :: cs) = .ok ts) :
    ∃ t rest us, next c cs = .ok (t, rest) ∧ tokens rest = .ok us ∧ ts = t.toList ++ us := by
  unfold tokens at h
  split at h
  · cases h
  · rename_i t rest hnext
    split at h
    · cases h
    · rename_i us hrest
      cases h
      exact ⟨t, rest, us, hnext, hrest, rfl⟩

/-- What the reader of tokens makes of a character that is not blank, and of what follows. -/
inductive Lexeme (c : Char) (cs : List Char) : Token → List Char → Prop
  | mark {t : Token} {rest : List Char} (mark : takeMark (c :: cs) = some (t, rest)) : Lexeme c cs t rest
  | string {s rest : List Char} (quote : c = '"' ∨ c = '\'') (content : takeString c cs = some (s, rest)) :
      Lexeme c cs (.str (String.ofList s)) rest
  | number (start : startsNumber (c :: cs) = true) :
      Lexeme c cs (.number (String.ofList (c :: (takeNumber cs).1))) (takeNumber cs).2
  | word (start : Path.isWordStart c = true) :
      Lexeme c cs (.word (String.ofList (c :: cs.takeWhile Path.isWordChar))) (cs.dropWhile Path.isWordChar)

theorem lexeme_of_next {c : Char} {cs rest : List Char} {t : Token} (h : next c cs = .ok (some t, rest)) :
    Lexeme c cs t rest := by
  unfold next at h
  split at h
  · cases h
  split at h
  · cases h
    exact .mark ‹_›
  split at h
  · rename_i hquote
    split at h
    · cases h
      exact .string hquote ‹_›
    · cases h
  split at h
  · cases h
    exact .number ‹_›
  split at h
  · cases h
    exact .word ‹_›
  · cases h

theorem isBlank_of_next {c : Char} {cs rest : List Char} (h : next c cs = .ok (none, rest)) :
    Text.isBlank c = true ∧ rest = cs := by
  unfold next at h
  split at h
  · cases h
    exact ⟨‹_›, rfl⟩
  all_goals repeat' split at h
  all_goals cases h

theorem takeMark_cases {s rest : List Char} {t : Token} (h : takeMark s = some (t, rest)) :
    (∀ w, t ≠ .word w ∧ t ≠ .number w ∧ t ≠ .str w) ∧ (∀ c, s.head? = some c → Path.isWordChar c = false) ∧
      (t = .rightBracket → s = ']' :: rest) := by
  unfold takeMark at h
  split at h <;> cases h <;> simp <;> decide

/-- Blanks come first, and then what the first token is read from. -/
theorem exists_lexeme {s : List Char} {t : Token} {ts : List Token} (h : tokens s = .ok (t :: ts)) :
    ∃ blanks c cs rest, s = blanks ++ c :: cs ∧ (∀ b ∈ blanks, Text.isBlank b = true) ∧ Lexeme c cs t rest ∧
      tokens rest = .ok ts := by
  induction s with
  | nil =>
    rw [tokens_nil] at h
    cases h
  | cons c cs ih =>
    obtain ⟨t', rest, us, hnext, hrest, hts⟩ := tokens_cons_eq_ok h
    cases t' with
    | none =>
      obtain ⟨hblank, rfl⟩ := isBlank_of_next hnext
      obtain ⟨blanks, d, ds, rest', rfl, hblanks, hlexeme, htokens⟩ := ih (hts ▸ hrest)
      exact ⟨c :: blanks, d, ds, rest', rfl, List.forall_mem_cons.2 ⟨hblank, hblanks⟩, hlexeme, htokens⟩
    | some t' =>
      obtain ⟨rfl, rfl⟩ := List.cons.inj hts
      exact ⟨[], c, cs, rest, rfl, List.forall_mem_nil _, lexeme_of_next hnext, hrest⟩

/-! ### Strings and brackets -/

/-- Without backslashes a string ends at the next mark of its kind. -/
theorem eq_of_takeString {quote : Char} {s a b : List Char} (hplain : '\\' ∉ s)
    (h : takeString quote s = some (a, b)) : s = a ++ quote :: b ∧ quote ∉ a := by
  fun_induction takeString quote s generalizing a with
  | case1 => cases h
  | case2 => cases h
  | case3 c cs ih => exact absurd List.mem_cons_self hplain
  | case4 cs _ _ =>
    cases h
    exact ⟨rfl, List.not_mem_nil⟩
  | case5 c cs _ _ hc ih =>
    obtain ⟨⟨a', b'⟩, htake, hparts⟩ := Option.map_eq_some_iff.1 h
    cases hparts
    obtain ⟨rfl, hquote⟩ := ih (fun hmem => hplain (List.mem_cons_of_mem c hmem)) htake
    exact ⟨rfl, fun hmem => (List.mem_cons.1 hmem).elim (fun heq => hc heq.symm) hquote⟩

theorem unquote?_eq_some_iff {mark : Char} {s name : List Char} :
    Path.unquote? mark s = some name ↔ s = mark :: (name ++ [mark]) := by
  constructor
  · intro h
    obtain ⟨rest, hstart, hfinish⟩ := Option.bind_eq_some_iff.1 h
    obtain ⟨back, hback, rfl⟩ := Option.map_eq_some_iff.1 hfinish
    have hrest := Text.dropStart_eq hback
    rw [Text.dropStart_eq hstart, ← List.reverse_reverse rest, hrest]
    simp
  · rintro rfl
    have hstart : Text.dropStart [mark] (mark :: (name ++ [mark])) = some (name ++ [mark]) := if_pos rfl
    rw [Path.unquote?, hstart]
    exact Text.dropFinish_append name [mark]

/-- The numeral of an index consists of digits behind a sign or none. -/
theorem digit_of_readIndex? {cs : List Char} {n : Nat} (h : Path.readIndex? cs = some n) :
    cs ≠ [] ∧ ∀ c ∈ cs, c = '+' ∨ c.isDigit = true := by
  obtain ⟨ds, hds, hread⟩ := readIndex?_eq cs
  rw [hread, Option.ite_none_right_eq_some] at h
  simp only [Bool.and_eq_true, Bool.not_eq_true', List.isEmpty_eq_false_iff, List.all_eq_true] at h
  obtain ⟨⟨⟨hne, hdigits⟩, -⟩, -⟩ := h
  rcases hds with ⟨rfl, -⟩ | rfl
  · exact ⟨hne, fun c hc => .inr (hdigits c hc)⟩
  · exact ⟨List.cons_ne_nil _ _, fun c hc => (List.mem_cons.1 hc).imp_right (hdigits c)⟩

theorem isBlank_of_numeral {c : Char} (h : c = '+' ∨ c.isDigit = true) : Text.isBlank c = false ∧ c ≠ ']' := by
  rcases h with rfl | h
  · decide
  · refine ⟨isBlank_of_isWordChar (by simp [Path.isWordChar, Char.isAlphanum, h]), ?_⟩
    rintro rfl
    cases h

theorem bracketStep?_numeral {a b cs : List Char} (ha : ∀ c ∈ a, Text.isBlank c = true)
    (hb : ∀ c ∈ b, Text.isBlank c = true) {n : Nat} (h : Path.readIndex? cs = some n) :
    Path.bracketStep? (a ++ (cs ++ b)) = some (.index n) := by
  obtain ⟨hne, hdigits⟩ := digit_of_readIndex? h
  have htrim : Text.trim (a ++ (cs ++ b)) = cs :=
    Text.trim_between ha hb hne (fun c hc => (isBlank_of_numeral (hdigits c (List.mem_of_mem_head? hc))).1)
      fun c hc => (isBlank_of_numeral (hdigits c (List.mem_of_mem_getLast? hc))).1
  rw [Path.bracketStep?, htrim, h]

/-- A text that begins with a quotation mark is no numeral. -/
theorem readIndex?_mark {mark : Char} (hmark : mark = '"' ∨ mark = '\'') (s : List Char) :
    Path.readIndex? (mark :: s) = none := by
  rw [Option.eq_none_iff_forall_ne_some]
  intro n hn
  have hdigit := (digit_of_readIndex? hn).2 mark List.mem_cons_self
  rcases hmark with rfl | rfl <;> revert hdigit <;> decide

theorem bracketStep?_quoted {a b name : List Char} {mark : Char} (ha : ∀ c ∈ a, Text.isBlank c = true)
    (hb : ∀ c ∈ b, Text.isBlank c = true) (hmark : mark = '"' ∨ mark = '\'') :
    Path.bracketStep? (a ++ (mark :: (name ++ [mark]) ++ b)) = some (.field (String.ofList name)) := by
  have hink : Text.isBlank mark = false := by rcases hmark with rfl | rfl <;> decide
  have htrim : Text.trim (a ++ (mark :: (name ++ [mark]) ++ b)) = mark :: (name ++ [mark]) := by
    refine Text.trim_between ha hb (List.cons_ne_nil _ _) (fun c hc => ?_) fun c hc => ?_
    · rwa [← Option.some.inj hc]
    · rw [← List.cons_append, List.getLast?_concat] at hc
      rwa [← Option.some.inj hc]
  rw [Path.bracketStep?, htrim, readIndex?_mark hmark]
  have hunquote : Path.unquote? mark (mark :: (name ++ [mark])) = some name := unquote?_eq_some_iff.2 rfl
  rcases hmark with rfl | rfl
  · simp [hunquote]
  · have hother : Path.unquote? '"' ('\'' :: (name ++ ['\''])) = none := rfl
    simp [hunquote, hother]

/-- Behind an opening mark that is not closed there is no step. -/
theorem bracketStep?_open {a s : List Char} {mark : Char} (ha : ∀ c ∈ a, Text.isBlank c = true)
    (hmark : mark = '"' ∨ mark = '\'') (hs : mark ∉ s) : Path.bracketStep? (a ++ mark :: s) = none := by
  have hink : Text.isBlank mark = false := by rcases hmark with rfl | rfl <;> decide
  obtain ⟨u, hu⟩ : Text.trim (a ++ mark :: s) <+: mark :: s := by
    have hfront : Text.trimStart (a ++ mark :: s) = mark :: s := by
      rw [Text.trimStart, List.dropWhile_append_of_pos ha]
      exact Text.trimStart_eq_self fun c hc => by rwa [← Option.some.inj hc]
    rw [Text.trim, hfront]
    exact Text.trimEnd_isPrefix _
  have hunquote : ∀ m, Path.unquote? m (Text.trim (a ++ mark :: s)) = none := by
    intro m
    rw [Option.eq_none_iff_forall_ne_some]
    intro name hname
    rw [unquote?_eq_some_iff.1 hname] at hu
    obtain ⟨rfl, hs'⟩ := List.cons.inj hu
    exact hs (by rw [← hs']; simp)
  have hindex : Path.readIndex? (Text.trim (a ++ mark :: s)) = none := by
    cases htrim : Text.trim (a ++ mark :: s) with
    | nil => rfl
    | cons c y =>
      rw [htrim] at hu
      obtain ⟨rfl, -⟩ := List.cons.inj hu
      exact readIndex?_mark hmark y
  rw [Path.bracketStep?, hindex, hunquote, hunquote]
  rfl

/-! ### Steps -/

theorem steps?_dot (cs : List Char) :
    Path.steps? ('.' :: cs) = (Path.takeWord cs).bind fun p => (Path.steps? p.2).map (.field p.1 :: ·) := by
  rw [Path.steps?]
  split <;> simp [*]

theorem steps?_bracket (cs : List Char) :
    Path.steps? ('[' :: cs) = (Text.cut [']'] cs).bind fun p =>
      (Path.bracketStep? p.1).bind fun s => (Path.steps? p.2).map (s :: ·) := by
  rw [Path.steps?]
  split
  · rename_i inner rest hcut
    rw [hcut]
    cases hstep : Path.bracketStep? inner <;> simp [hstep]
  · rename_i hcut
    rw [hcut]
    rfl

theorem steps?_cons {c : Char} {cs : List Char} {p : Path} (h : Path.steps? (c :: cs) = some p) :
    c = '.' ∨ c = '[' := by
  unfold Path.steps? at h
  split at h
  all_goals simp_all

theorem takeWord_cons {c : Char} (hc : Path.isWordChar c = true) (cs : List Char) :
    Path.takeWord (c :: cs)
      = some (String.ofList (c :: cs.takeWhile Path.isWordChar), cs.dropWhile Path.isWordChar) := by
  rw [Path.takeWord, List.takeWhile_cons_of_pos hc, List.dropWhile_cons_of_pos hc]
  rfl

/-- A word ends before a character that belongs to no word. -/
theorem takeWord_append {w s : List Char} (hne : w ≠ []) (hw : ∀ c ∈ w, Path.isWordChar c = true)
    (hs : ∀ c, s.head? = some c → Path.isWordChar c = false) :
    Path.takeWord (w ++ s) = some (String.ofList w, s) := by
  have htake : s.takeWhile Path.isWordChar = [] ∧ s.dropWhile Path.isWordChar = s := by
    cases s with
    | nil => exact ⟨rfl, rfl⟩
    | cons c s =>
      have hc : ¬ Path.isWordChar c = true := by rw [hs c rfl]; exact Bool.false_ne_true
      exact ⟨List.takeWhile_cons_of_neg hc, List.dropWhile_cons_of_neg hc⟩
  rw [Path.takeWord, List.takeWhile_append_of_pos hw, List.dropWhile_append_of_pos hw, htake.1, htake.2,
    List.append_nil, if_neg (by simpa using hne)]

/-- The fields of some names. -/
def fields (names : List (List Char)) : Path := names.map fun name => .field (String.ofList name)

theorem fields_append (names names' : List (List Char)) : fields (names ++ names') = fields names ++ fields names' :=
  List.map_append

/-- Whether a word has begun: some of its characters were read, or a digit comes next. -/
def Begun (w s : List Char) : Prop := w ≠ [] ∨ ∃ d, s.head? = some d ∧ d.isDigit = true

theorem isWordChar_of_isDigit {c : Char} (h : c.isDigit = true) : Path.isWordChar c = true := by
  simp [Path.isWordChar, Char.isAlphanum, h]

theorem steps?_word {w s : List Char} (hw : ∀ c ∈ w, Path.isWordChar c = true) (hbegun : Begun w s)
    (hs : ∀ c, s.head? = some c → Path.isWordChar c = false) :
    Path.steps? ('.' :: (w ++ s)) = (Path.steps? s).map (fields (Text.splitOn '.' w) ++ ·) := by
  have hne : w ≠ [] := hbegun.resolve_right fun ⟨d, hd, hdigit⟩ => by
    have hword := isWordChar_of_isDigit hdigit
    rw [hs d hd] at hword
    cases hword
  have hdot : '.' ∉ w := fun h => absurd (hw '.' h) (by decide)
  rw [steps?_dot, takeWord_append hne hw hs, Option.bind_some, Text.splitOn_of_not_mem hdot]
  rfl

/-- A number behind a point, of which some characters were read already, is a row of fields. -/
theorem steps?_number {w s : List Char} (hw : ∀ c ∈ w, Path.isWordChar c = true) (hbegun : Begun w s)
    (hrest : ∀ c, (takeNumber s).2.head? = some c → Path.isWordChar c = false) :
    Path.steps? ('.' :: (w ++ s)) = (Path.steps? (takeNumber s).2).map
      (fields (Text.splitOn '.' (w ++ (takeNumber s).1)) ++ ·) := by
  fun_induction takeNumber s generalizing w with
  | case1 d cs hd ds rest htake ih =>
    have hnext : Path.steps? ('.' :: d :: cs) = (Path.steps? rest).map (fields (Text.splitOn '.' ds) ++ ·) := by
      rw [htake] at ih
      exact ih (w := []) (List.forall_mem_nil _) (.inr ⟨d, rfl, hd⟩) hrest
    have hstop : ∀ c, ('.' :: d :: cs).head? = some c → Path.isWordChar c = false := fun c hc => by
      cases hc
      rfl
    rw [steps?_word hw hbegun hstop, hnext, Option.map_map, Text.splitOn_append, fields_append]
    exact congrArg (Option.map · (Path.steps? rest)) (funext fun p => (List.append_assoc _ _ p).symm)
  | case3 c cs _ hd ds rest htake ih =>
    rw [htake] at ih
    have hmore := ih (w := w ++ [c]) (fun x hx => ?_) (.inl (by simp)) hrest
    · rwa [List.append_assoc, List.append_assoc] at hmore
    · rcases List.mem_append.1 hx with hx | hx
      · exact hw x hx
      · rw [List.mem_singleton.1 hx]
        exact isWordChar_of_isDigit hd
  | case2 | case4 | case5 =>
    simpa only [List.append_nil] using steps?_word hw hbegun hrest

/-! ### The two readers -/

/-- No word goes on where tokens lead on from a path. -/
theorem isWordChar_of_pathTail {s : List Char} {ts : List Token} {p : Path} (h : tokens s = .ok ts)
    (htail : PathTail ts p) : ∀ c, s.head? = some c → Path.isWordChar c = false := by
  intro c hc
  obtain ⟨cs, rfl⟩ := List.head?_eq_some_iff.1 hc
  obtain ⟨t, rest, us, hnext, -, rfl⟩ := tokens_cons_eq_ok h
  cases t with
  | none =>
    rw [Bool.eq_false_iff]
    intro hword
    exact absurd (isBlank_of_next hnext).1 (by rw [isBlank_of_isWordChar hword]; exact Bool.false_ne_true)
  | some t =>
    cases lexeme_of_next hnext with
    | mark hmark => exact (takeMark_cases hmark).2.1 c rfl
    | string hquote => rcases hquote with rfl | rfl <;> rfl
    | number => cases htail
    | word => cases htail

/-- Behind its first word a path goes on with a point or a bracket, for both readers. -/
theorem exists_of_steps? {s : List Char} {p : Path} {t : Token} {ts : List Token} (hsteps : Path.steps? s = some p)
    (h : tokens s = .ok (t :: ts)) :
    ∃ cs, (s = '.' :: cs ∧ t = .dot ∨ s = '[' :: cs ∧ t = .leftBracket) ∧ tokens cs = .ok ts := by
  cases s with
  | nil =>
    rw [tokens_nil] at h
    cases h
  | cons c cs =>
    obtain ⟨t', rest, us, hnext, hrest, hts⟩ := tokens_cons_eq_ok h
    rcases steps?_cons hsteps with rfl | rfl
    · obtain ⟨rfl, rfl⟩ : some Token.dot = t' ∧ cs = rest := by simpa using Except.ok.inj hnext
      obtain ⟨rfl, rfl⟩ := List.cons.inj hts
      exact ⟨cs, .inl ⟨rfl, rfl⟩, hrest⟩
    · obtain ⟨rfl, rfl⟩ : some Token.leftBracket = t' ∧ cs = rest := by simpa using Except.ok.inj hnext
      obtain ⟨rfl, rfl⟩ := List.cons.inj hts
      exact ⟨cs, .inr ⟨rfl, rfl⟩, hrest⟩

/-- Whether both readers take the same steps off a text, and leave the same rest. -/
def Shared (s : List Char) (q : Path) (ts : List Token) : Prop :=
  ∃ rest, Path.steps? s = (Path.steps? rest).map (q ++ ·) ∧ tokens rest = .ok ts ∧ rest ⊆ s

/-- Behind steps that both take, the paths are the same if they are on the rest, which has no backslash either. -/
theorem Shared.eq_append {s : List Char} {p q r : Path} {ts : List Token} (h : Shared s q ts) (hplain : '\\' ∉ s)
    (hsteps : Path.steps? s = some p)
    (hr : ∀ {rest : List Char} {p' : Path}, '\\' ∉ rest → Path.steps? rest = some p' → tokens rest = .ok ts →
      p' = r) : p = q ++ r := by
  obtain ⟨rest, hs, hrest, hsub⟩ := h
  obtain ⟨p', hp', rfl⟩ := Option.map_eq_some_iff.1 (hs ▸ hsteps)
  rw [hr (fun hmem => hplain (hsub hmem)) hp' hrest]

theorem takeNumber_append (s : List Char) : (takeNumber s).1 ++ (takeNumber s).2 = s := by
  fun_induction takeNumber s with
  | case1 d cs _ ds rest htake ih =>
    rw [htake] at ih
    exact congrArg ('.' :: ·) ih
  | case3 c cs _ _ ds rest htake ih =>
    rw [htake] at ih
    exact congrArg (c :: ·) ih
  | case2 | case4 | case5 => rfl

theorem isWordChar_of_takeWord {c : Char} {cs : List Char} {r : String × List Char}
    (h : Path.takeWord (c :: cs) = some r) : Path.isWordChar c = true := by
  by_contra hc
  rw [Path.takeWord, List.takeWhile_cons_of_neg hc] at h
  cases h

/-- Behind a point both read from the same character on. -/
theorem exists_of_dot {s : List Char} {p : Path} {t : Token} {ts : List Token}
    (hsteps : Path.steps? s = some p) (h : tokens s = .ok (.dot :: t :: ts)) :
    ∃ c cs rest, s = '.' :: c :: cs ∧ Path.isWordChar c = true ∧ Lexeme c cs t rest ∧ tokens rest = .ok ts := by
  obtain ⟨cs, ⟨rfl, -⟩ | ⟨-, hbracket⟩, hcs⟩ := exists_of_steps? hsteps h
  · rw [steps?_dot, Option.bind_eq_some_iff] at hsteps
    obtain ⟨r, hword, -⟩ := hsteps
    obtain ⟨a, c, cs, rest, rfl, ha, hlexeme, hrest⟩ := exists_lexeme hcs
    cases a with
    | nil => exact ⟨c, cs, rest, rfl, isWordChar_of_takeWord hword, hlexeme, hrest⟩
    | cons b a =>
      have hblank := ha b List.mem_cons_self
      rw [isBlank_of_isWordChar (isWordChar_of_takeWord hword)] at hblank
      cases hblank
  · cases hbracket

/-- Between brackets there is one token, and blanks around it. -/
theorem exists_of_bracket {s : List Char} {p : Path} {t : Token} {ts : List Token} (hsteps : Path.steps? s = some p)
    (h : tokens s = .ok (.leftBracket :: t :: .rightBracket :: ts)) :
    ∃ a c cs b rest, s = '[' :: (a ++ c :: cs) ∧ (∀ x ∈ a, Text.isBlank x = true) ∧ (∀ x ∈ b, Text.isBlank x = true) ∧
      Lexeme c cs t (b ++ ']' :: rest) ∧ tokens rest = .ok ts := by
  obtain ⟨cs, ⟨-, hdot⟩ | ⟨rfl, -⟩, hcs⟩ := exists_of_steps? hsteps h
  · cases hdot
  · obtain ⟨a, c, cs, behind, rfl, ha, hlexeme, hbehind⟩ := exists_lexeme hcs
    obtain ⟨b, d, ds, rest, rfl, hb, hclose, hrest⟩ := exists_lexeme hbehind
    cases hclose with
    | mark hmark =>
      rw [(takeMark_cases hmark).2.2 rfl] at hlexeme
      exact ⟨a, c, cs, b, rest, rfl, ha, hb, hlexeme, hrest⟩

theorem not_mem_of_blank {s : List Char} (h : ∀ x ∈ s, Text.isBlank x = true) : ']' ∉ s :=
  fun hmem => absurd (h ']' hmem) (by decide)

theorem shared_bracket {inner rest : List Char} {q : Step} {ts : List Token} (hclose : ']' ∉ inner)
    (hstep : Path.bracketStep? inner = some q) (h : tokens rest = .ok ts) :
    Shared ('[' :: (inner ++ ']' :: rest)) [q] ts := by
  refine ⟨rest, ?_, h, fun x hx => ?_⟩
  · rw [steps?_bracket, Text.cut_of_not_mem hclose, Option.bind_some, hstep]
    rfl
  · exact List.mem_cons_of_mem _ (List.mem_append_right _ (List.mem_cons_of_mem _ hx))

theorem shared_field {s : List Char} {p : Path} {name : String} {ts : List Token}
    (hsteps : Path.steps? s = some p) (h : tokens s = .ok (.dot :: .word name :: ts)) :
    Shared s [.field name] ts := by
  obtain ⟨c, cs, rest, rfl, hc, hlexeme, hrest⟩ := exists_of_dot hsteps h
  cases hlexeme with
  | mark hmark => exact absurd rfl ((takeMark_cases hmark).1 name).1
  | word =>
    refine ⟨_, ?_, hrest, ?_⟩
    · rw [steps?_dot, takeWord_cons hc]
      rfl
    · exact fun x hx => List.mem_cons_of_mem _ (List.mem_cons_of_mem _ ((List.dropWhile_suffix _).subset hx))

theorem shared_fields {s : List Char} {p q : Path} {text : String} {names : List String} {ts : List Token}
    (hsteps : Path.steps? s = some p) (h : tokens s = .ok (.dot :: .number text :: ts))
    (hdotted : Dotted text.toList names) (htail : PathTail ts q) : Shared s (names.map .field) ts := by
  obtain ⟨c, cs, rest, rfl, hc, hlexeme, hrest⟩ := exists_of_dot hsteps h
  cases hlexeme with
  | mark hmark => exact absurd rfl ((takeMark_cases hmark).1 text).2.1
  | number =>
    have hnumber := steps?_number (w := [c]) (s := cs) (List.forall_mem_singleton.2 hc) (.inl (List.cons_ne_nil _ _))
      (isWordChar_of_pathTail hrest htail)
    have hnames : fields (Text.splitOn '.' (c :: (takeNumber cs).1)) = names.map .field := by
      rw [String.toList_ofList, dotted_iff] at hdotted
      rw [← hdotted, List.map_map]
      rfl
    rw [List.singleton_append, List.singleton_append, hnames] at hnumber
    exact ⟨_, hnumber, hrest, fun x hx => List.mem_cons_of_mem _ (List.mem_cons_of_mem _
      (takeNumber_append cs ▸ List.mem_append_right _ hx))⟩

theorem shared_index {s : List Char} {p : Path} {text : String} {n : Nat} {ts : List Token}
    (hsteps : Path.steps? s = some p) (h : tokens s = .ok (.leftBracket :: .number text :: .rightBracket :: ts))
    (hindex : SpellsIndex text n) : Shared s [.index n] ts := by
  obtain ⟨a, c, cs, b, rest, rfl, ha, hb, hlexeme, hrest⟩ := exists_of_bracket hsteps h
  generalize hbehind : b ++ ']' :: rest = behind at hlexeme
  cases hlexeme with
  | mark hmark => exact absurd rfl ((takeMark_cases hmark).1 text).2.1
  | number =>
    have hread := readIndex?_eq_some_iff.2 hindex
    rw [String.toList_ofList] at hread
    have hdigits := (digit_of_readIndex? hread).2
    generalize hds : (takeNumber cs).1 = ds at hread hdigits
    have hs : a ++ c :: cs = a ++ (c :: ds ++ b) ++ ']' :: rest := by
      rw [← takeNumber_append cs, hds, ← hbehind]
      simp
    rw [hs]
    refine shared_bracket ?_ (bracketStep?_numeral ha hb hread) hrest
    rw [List.mem_append, List.mem_append, not_or, not_or]
    exact ⟨not_mem_of_blank ha, fun hmem => (isBlank_of_numeral (hdigits _ hmem)).2 rfl, not_mem_of_blank hb⟩

theorem shared_quoted {s : List Char} {p : Path} {name : String} {ts : List Token} (hplain : '\\' ∉ s)
    (hsteps : Path.steps? s = some p) (h : tokens s = .ok (.leftBracket :: .str name :: .rightBracket :: ts)) :
    Shared s [.field name] ts := by
  obtain ⟨a, c, cs, b, rest, rfl, ha, hb, hlexeme, hrest⟩ := exists_of_bracket hsteps h
  generalize hbehind : b ++ ']' :: rest = behind at hlexeme
  cases hlexeme with
  | mark hmark => exact absurd rfl ((takeMark_cases hmark).1 name).2.2
  | @string x _ hquote hcontent =>
    obtain ⟨rfl, hx⟩ := eq_of_takeString (fun hmem => hplain (by simp [hmem])) hcontent
    subst hbehind
    have hmark : ']' ≠ c := by rcases hquote with rfl | rfl <;> decide
    by_cases hclose : ']' ∈ x
    · -- a bracket within the name would leave a mark without another
      obtain ⟨y, z, rfl, hy⟩ := List.eq_append_cons_of_mem hclose
      have hs : a ++ c :: (y ++ ']' :: z ++ c :: (b ++ ']' :: rest))
          = a ++ c :: y ++ ']' :: (z ++ c :: (b ++ ']' :: rest)) := by simp
      have hinner : ']' ∉ a ++ c :: y := by simp [not_mem_of_blank ha, hmark, hy]
      rw [hs, steps?_bracket, Text.cut_of_not_mem hinner, Option.bind_some,
        bracketStep?_open ha hquote fun hmem => hx (List.mem_append_left _ hmem)] at hsteps
      cases hsteps
    · have hs : a ++ c :: (x ++ c :: (b ++ ']' :: rest)) = a ++ (c :: (x ++ [c]) ++ b) ++ ']' :: rest := by simp
      rw [hs]
      refine shared_bracket ?_ (bracketStep?_quoted ha hb hquote) hrest
      simp [not_mem_of_blank ha, not_mem_of_blank hb, hmark, hclose]

/-- **The steps behind the first word are the same.** -/
theorem eq_of_pathTail {ts : List Token} {q : Path} (htail : PathTail ts q) {s : List Char} {p : Path}
    (hplain : '\\' ∉ s) (hsteps : Path.steps? s = some p) (h : tokens s = .ok ts) : p = q := by
  induction htail generalizing s p with
  | nil =>
    cases s with
    | nil =>
      rw [Path.steps?] at hsteps
      exact (Option.some.inj hsteps).symm
    | cons c cs =>
      obtain ⟨t, rest, us, hnext, hrest, hts⟩ := tokens_cons_eq_ok h
      cases t with
      | none =>
        have hblank := (isBlank_of_next hnext).1
        rcases steps?_cons hsteps with rfl | rfl <;> exact absurd hblank (by decide)
      | some t => cases hts
  | field rest ih => exact (shared_field hsteps h).eq_append hplain hsteps ih
  | fields dotted rest ih => exact (shared_fields hsteps h dotted rest).eq_append hplain hsteps ih
  | index spelled rest ih => exact (shared_index hsteps h spelled).eq_append hplain hsteps ih
  | quoted rest ih => exact (shared_quoted hplain hsteps h).eq_append hplain hsteps ih

/-- A phrase that begins with a word and has a path as its tree is that path. -/
theorem exists_of_derives_path {k : Phrase} {ts us : List Token} {w : String} {q : Path}
    (h : Derives k ts (.path q)) (hts : ts = .word w :: us) : ∃ r, q = .field w :: r ∧ PathTail us r := by
  generalize he : Expr.path q = e at h
  induction h with
  | conjunction only ih | comparison only ih | operand only ih | primary only ih => exact ih hts he
  | or | and | compared | not | string | number | literalWord | text | test => cases he
  | parentheses => cases hts
  | path root tail =>
    cases he
    cases hts
    exact ⟨_, rfl, tail⟩

theorem isWordChar_of_isWordStart {c : Char} (h : Path.isWordStart c = true) : Path.isWordChar c = true := by
  rw [Path.isWordStart, Bool.or_eq_true] at h
  rw [Path.isWordChar, Char.isAlphanum, Bool.or_eq_true, Bool.or_eq_true, Bool.or_eq_true]
  exact .inl (h.imp_left .inl)

theorem startsNumber_of_isWordStart {c : Char} (h : Path.isWordStart c = true) (cs : List Char) :
    startsNumber (c :: cs) = false := by
  have hdigit : c.isDigit = false := by
    rw [Bool.eq_false_iff]
    intro hdigit
    rw [Path.isWordStart, Bool.or_eq_true, decide_eq_true_eq] at h
    rcases h with h | rfl
    · have hletter := bounds_of_isAlpha h
      have hbounds := bounds_of_isDigit hdigit
      omega
    · cases hdigit
  unfold startsNumber
  split
  · rename_i heq
    cases heq
    cases h
  · rename_i heq
    cases heq
    exact hdigit
  · rfl

/-- **What both readers take for a path is the same path**, if there is no backslash in it. -/
theorem eq_of_both_read {e : String} (hplain : '\\' ∉ e.toList) {p q : Path} (hp : Path.parse? e = some p)
    {ts : List Token} (htokens : tokens e.toList = .ok ts) (hq : Derives .disjunction ts (.path q)) : p = q := by
  unfold Path.parse? at hp
  split at hp
  · rename_i c cs he
    rw [he] at htokens hplain
    obtain ⟨hstart, hp⟩ := Option.ite_none_right_eq_some.1 hp
    have hc := isWordChar_of_isWordStart hstart
    rw [takeWord_cons hc, Option.bind_some] at hp
    obtain ⟨p', hp', rfl⟩ := Option.map_eq_some_iff.1 hp
    obtain ⟨t, rest, us, hnext, hrest, rfl⟩ := tokens_cons_eq_ok htokens
    cases t with
    | none =>
      have hblank := (isBlank_of_next hnext).1
      rw [isBlank_of_isWordChar hc] at hblank
      cases hblank
    | some t =>
      cases lexeme_of_next hnext with
      | mark hmark =>
        have hword := (takeMark_cases hmark).2.1 c rfl
        rw [hc] at hword
        cases hword
      | string hquote => rcases hquote with rfl | rfl <;> cases hstart
      | number hnumber =>
        rw [startsNumber_of_isWordStart hstart] at hnumber
        cases hnumber
      | word =>
        obtain ⟨r, rfl, htail⟩ := exists_of_derives_path hq rfl
        have hrestPlain : '\\' ∉ cs.dropWhile Path.isWordChar := fun hmem =>
          hplain (List.mem_cons_of_mem c ((List.dropWhile_suffix _).subset hmem))
        rw [eq_of_pathTail htail hrestPlain hp' hrest]
  · cases hp

end Guard

/-! ### What is found -/

/-- Whether a path leads into a scope in which everything must have a value. -/
def Context.IsStrict (c : Context) : Path → Prop
  | .field root :: _ => c.hasScope root = true ∧ root ∈ c.strict
  | _ => False

instance (c : Context) : DecidablePred c.IsStrict
  | .field root :: _ => inferInstanceAs (Decidable (c.hasScope root = true ∧ root ∈ c.strict))
  | .index _ :: _ => inferInstanceAs (Decidable False)
  | [] => inferInstanceAs (Decidable False)

theorem exists_field_of_parse? {e : String} {p : Path} (h : Path.parse? e = some p) :
    ∃ root path, p = .field root :: path := by
  unfold Path.parse? at h
  split at h
  · obtain ⟨-, h⟩ := Option.ite_none_right_eq_some.1 h
    obtain ⟨r, -, h⟩ := Option.bind_eq_some_iff.1 h
    obtain ⟨path, -, rfl⟩ := Option.map_eq_some_iff.1 h
    exact ⟨r.1, path, rfl⟩
  · cases h

/-- A token has the value that its path leads to.  What is missing is left in place, but in a strict scope it is an
error, and so is null. -/
theorem Context.resolve_of_parse? (c : Context) {e : String} {p : Path} (hp : Path.parse? e = some p) :
    c.resolve e = if c.IsStrict p ∧ (Path.find? c.toValue p).getD .null = .null then
      .error (.unresolvedVariable (Context.missingName e p.tail)) else .ok (Path.find? c.toValue p) := by
  obtain ⟨root, path, rfl⟩ := exists_field_of_parse? hp
  have hfind : Path.find? c.toValue (.field root :: path) = (c.scopes.lookup root).bind (Path.find? · path) := rfl
  rw [Context.resolve, hp, hfind]
  cases hscope : c.scopes.lookup root with
  | none =>
    have hno : ¬ c.IsStrict (.field root :: path) := fun h => by
      have hhas := h.1
      rw [Context.hasScope, Table.has, hscope] at hhas
      cases hhas
    rw [if_neg fun h => hno h.1]
    simp [hscope]
  | some scope =>
    have hstrict : c.IsStrict (.field root :: path) ↔ root ∈ c.strict := by
      have hhas : c.hasScope root = true := by rw [Context.hasScope, Table.has, hscope]; rfl
      exact and_iff_right hhas
    by_cases hroot : root ∈ c.strict
    · simp only [hstrict, hroot, hscope, Option.bind_some, List.contains_eq_mem, decide_true, if_true, true_and]
      split
      · rename_i hnone
        rw [hnone]
        rfl
      · rename_i hnull
        rw [hnull]
        rfl
      · rename_i v hnull hv
        rw [hv, Option.getD_some, if_neg fun h => hnull h]
    · simp [hstrict, hscope, hroot]

/-- **A token and a guard find the same value under a path that both can read**, whatever scopes there are.  What is
missing is left in place by the one and null for the other.  In a strict scope a token accepts neither what is missing
nor null. -/
theorem Guard.both_find {e : String} (hplain : '\\' ∉ e.toList) {p : Path} (hp : Path.parse? e = some p) {g : Guard}
    (hg : Guard.parse e = .ok g) {q : Path} (hq : g.expr = .path q) :
    p = q ∧ ∀ c : Context,
      g.evaluate c.toValue = .ok ((Path.find? c.toValue p).getD .null) ∧
        c.resolve e = if c.IsStrict p ∧ (Path.find? c.toValue p).getD .null = .null then
          .error (.unresolvedVariable (Context.missingName e p.tail)) else .ok (Path.find? c.toValue p) := by
  have hsame : p = q := by
    unfold Guard.parse at hg
    split at hg
    · rename_i expr hread
      cases hg
      obtain ⟨ts, htokens, hparse⟩ := bind_eq_ok hread
      rw [show expr = .path q from hq] at hparse
      exact eq_of_both_read hplain hp htokens (parseTokens_eq_ok_iff.1 hparse)
    · cases hg
  refine ⟨hsame, fun c => ⟨?_, c.resolve_of_parse? hp⟩⟩
  rw [Guard.evaluate, hq, ← hsame]
  rfl

namespace Guard

/-- A path with numbers, one of them with a sign, an index, and a quoted name. -/
def mixedPath : String := "node.ports.8080.-1[ 0 ]['a b']"

/-- A scope that is not strict, and one that is. -/
def someScopes : Context :=
  (Context.empty.withScope "node" (.obj [("ports", .obj [("8080", .obj [("-1", .arr [.obj [("a b", .bool true)]])])])])
    ).withStrictScope "variable" (.obj [])

theorem both_find_mixedPath :
    ∃ g p, '\\' ∉ mixedPath.toList ∧ Path.parse? mixedPath = some p ∧ Guard.parse mixedPath = .ok g ∧
      g.expr = .path p ∧ g.evaluate someScopes.toValue = .ok (.bool true) ∧
      someScopes.resolve mixedPath = .ok (some (.bool true)) := by
  obtain ⟨g, p, hplain, hp, hg, hq, hvalue⟩ : ∃ g p, '\\' ∉ mixedPath.toList ∧ Path.parse? mixedPath = some p ∧
      Guard.parse mixedPath = .ok g ∧ g.expr = .path p ∧ Path.find? someScopes.toValue p = some (.bool true) :=
    ⟨_, [.field "node", .field "ports", .field "8080", .field "-1", .index 0, .field "a b"], by decide +kernel,
      by decide +kernel, eq_ok_getD (by decide +kernel) default, by decide +kernel, by decide +kernel⟩
  obtain ⟨-, hfind⟩ := both_find hplain hp hg hq
  obtain ⟨hevaluate, hresolve⟩ := hfind someScopes
  rw [hvalue] at hevaluate hresolve
  exact ⟨g, p, hplain, hp, hg, hq, hevaluate, by rw [hresolve, if_neg fun h => by cases h.2]⟩

/-- What is missing in a strict scope is not left in place, although a guard finds null there. -/
theorem missing_in_strict_scope :
    ∃ g p, Path.parse? "variable.x" = some p ∧ Guard.parse "variable.x" = .ok g ∧ g.expr = .path p ∧
      g.evaluate someScopes.toValue = .ok .null ∧
      someScopes.resolve "variable.x" = .error (.unresolvedVariable "x") ∧
      someScopes.resolve "variable.x" ≠ .ok none :=
  ⟨_, [.field "variable", .field "x"], by decide +kernel, eq_ok_getD (by decide +kernel) default,
    by decide +kernel, by decide +kernel, by decide +kernel, by decide +kernel⟩

end Guard

end Groundwork
