import Groundwork.Infrastructure.Status
import Groundwork.Proofs.Template.Substitution
import Mathlib.Data.List.Forall2

/-!
# Texts that differ in colors

A node that is planned twice for the same target may get another color the second time, and then the
references to it are written with another color.  Colors are plain words: no delimiter, no quotation mark and
no escape is among their characters.  So two texts that differ in colors only are cut into tokens at the same
places, however badly their tokens break up.

Main statements: the tokens of two such texts differ in colors only (`expressions_recolored`), and so do those
of a value under two rewritings that differ in colors (`visitExpressions_recolored`).
-/

namespace Groundwork

/-- A color at the end of an id, with the signs around it. -/
def Color.mark (c : Color) : List Char := '@' :: (c.name.toList ++ ['.'])

/-- Whether two texts differ in the colors of ids only. -/
inductive Recolored : List Char → List Char → Prop
  | nil : Recolored [] []
  | cons (c : Char) {s t : List Char} (h : Recolored s t) : Recolored (c :: s) (c :: t)
  | mark (c d : Color) {s t : List Char} (h : Recolored s t) : Recolored (c.mark ++ s) (d.mark ++ t)

namespace Recolored

variable {s t : List Char}

theorem refl : ∀ s : List Char, Recolored s s
  | [] => nil
  | c :: s => cons c (refl s)

theorem symm (h : Recolored s t) : Recolored t s := by
  induction h with
  | nil => exact nil
  | cons c h ih => exact cons c ih
  | mark c d h ih => exact mark d c ih

theorem append {s' t' : List Char} (h : Recolored s t) (h' : Recolored s' t') :
    Recolored (s ++ s') (t ++ t') := by
  induction h with
  | nil => exact h'
  | cons c h ih => exact cons c ih
  | mark c d h ih =>
    rw [List.append_assoc, List.append_assoc]
    exact mark c d ih

/-- Outside of colors both texts have the same character. -/
theorem of_cons {c : Char} (hc : c ≠ '@') {u : List Char} (h : Recolored (c :: s) u) :
    ∃ t, u = c :: t ∧ Recolored s t := by
  generalize hv : c :: s = v at h
  cases h with
  | nil => cases hv
  | cons c' h =>
    cases hv
    exact ⟨_, rfl, h⟩
  | mark d e h => exact absurd (List.head_eq_of_cons_eq hv) hc

theorem head (h : Recolored s t) : s.head? = t.head? := by
  cases h with
  | nil => rfl
  | cons c h => rfl
  | mark c d h => rfl

theorem isEmpty (h : Recolored s t) : s.isEmpty = t.isEmpty := by
  cases h with
  | nil => rfl
  | cons c h => rfl
  | mark c d h => rfl

end Recolored

namespace Template

/-! ### Words -/

/-- The characters that decide where tokens begin and end: delimiters, quotation marks and escapes. -/
def loud : List Char := ['$', '\x7b', '\x7d', '"', '\'', '\\']

/-- Whether a character has no say in where tokens begin and end. -/
def Quiet (c : Char) : Prop := c ∉ loud

theorem quiet_mark (c : Color) : ∀ x ∈ c.mark, Quiet x := by
  have hall : c.mark.all (fun x => !loud.contains x) = true := by cases c <;> rfl
  intro x hx
  have hquiet := List.all_eq_true.1 hall x hx
  rw [Bool.not_eq_true', ← Bool.not_eq_true, List.contains_iff_mem] at hquiet
  exact hquiet

/-- A cut with more text in front. -/
def prepend (w : List Char) (x : Option (List Char × List Char)) : Option (List Char × List Char) :=
  x.map fun p => (w ++ p.1, p.2)

theorem prepend_prepend (w v : List Char) (x : Option (List Char × List Char)) :
    prepend w (prepend v x) = prepend (w ++ v) x := by
  cases x with
  | none => rfl
  | some p => simp [prepend]

theorem prepend_nil (x : Option (List Char × List Char)) : prepend [] x = x := by
  cases x <;> rfl

/-- Whether counting braces is outside of quotation marks or within some. -/
def Quoting (q : Option Char) : Prop := ∀ c, q = some c → c = '"' ∨ c = '\''

theorem quoting_none : Quoting none := fun _ h => by cases h

/-- What counting braces does outside of quotation marks. -/
theorem takeBraced_none (depth : Nat) (c : Char) (s : List Char) :
    takeBraced depth none (c :: s) =
      if c = '"' ∨ c = '\'' then prepend [c] (takeBraced depth (some c) s)
      else if c = '\x7b' then prepend [c] (takeBraced (depth + 1) none s)
      else if c = '\x7d' then
        if depth = 0 then some ([], s) else prepend [c] (takeBraced (depth - 1) none s)
      else prepend [c] (takeBraced depth none s) := by
  cases depth with
  | zero =>
    rw [takeBraced]
    rfl
  | succ depth =>
    rw [takeBraced]
    rfl

/-- What it does within quotation marks with a character that is no escape. -/
theorem takeBraced_some (depth : Nat) {c : Char} (hc : c ≠ '\\') (q : Char) (s : List Char) :
    takeBraced depth (some q) (c :: s)
      = prepend [c] (takeBraced depth (if c = q then none else some q) s) := by
  rw [takeBraced]
  · rfl
  · exact fun h => absurd h hc
  · exact fun _ _ h => absurd h hc

/-- Looking for the end of a token passes over a word. -/
theorem cut_closer_word {w : List Char} (hw : ∀ x ∈ w, Quiet x) (s : List Char) :
    Text.cut ['\x7d', '\x7d'] (w ++ s) = prepend w (Text.cut ['\x7d', '\x7d'] s) := by
  induction w with
  | nil => rw [prepend_nil, List.nil_append]
  | cons c w ih =>
    have hc : '\x7d' ≠ c := fun e => hw c List.mem_cons_self (by rw [← e]; decide)
    have hstart : Text.dropStart ['\x7d', '\x7d'] (c :: (w ++ s)) = none := if_neg hc
    rw [List.cons_append, Text.cut, hstart, ih fun x hx => hw x (List.mem_cons_of_mem c hx)]
    exact prepend_prepend [c] w _

/-- Counting braces passes over a word. -/
theorem takeBraced_word {w : List Char} (hw : ∀ x ∈ w, Quiet x) {depth : Nat} {q : Option Char}
    (hq : Quoting q) (s : List Char) : takeBraced depth q (w ++ s) = prepend w (takeBraced depth q s) := by
  induction w with
  | nil => rw [prepend_nil, List.nil_append]
  | cons c w ih =>
    have hc : c ≠ '\x7b' ∧ c ≠ '\x7d' ∧ c ≠ '"' ∧ c ≠ '\'' ∧ c ≠ '\\' := by
      have h := hw c List.mem_cons_self
      simp only [Quiet, loud, List.mem_cons, List.not_mem_nil, or_false, not_or] at h
      exact h.2
    have hstep : takeBraced depth q (c :: (w ++ s)) = prepend [c] (takeBraced depth q (w ++ s)) := by
      cases q with
      | none => rw [takeBraced_none, if_neg (not_or.2 ⟨hc.2.2.1, hc.2.2.2.1⟩), if_neg hc.1, if_neg hc.2.1]
      | some x =>
        have hx : c ≠ x := by
          rcases hq x rfl with rfl | rfl
          · exact hc.2.2.1
          · exact hc.2.2.2.1
        rw [takeBraced_some depth hc.2.2.2.2, if_neg hx]
    rw [List.cons_append, hstep, ih fun x hx => hw x (List.mem_cons_of_mem c hx), prepend_prepend]
    rfl

/-! ### Cuts -/

/-- Whether a second cut parts its text like the first one. -/
def Parted (x y : Option (List Char × List Char)) : Prop :=
  ∀ p, x = some p → ∃ r, y = some r ∧ Recolored p.1 r.1 ∧ Recolored p.2 r.2

theorem Parted.none (y : Option (List Char × List Char)) : Parted none y := fun _ h => by cases h

theorem Parted.start {s t : List Char} (h : Recolored s t) : Parted (some ([], s)) (some ([], t)) := by
  intro p hp
  cases hp
  exact ⟨_, rfl, .nil, h⟩

theorem Parted.cons {x y : Option (List Char × List Char)} (h : Parted x y) (c : Char) :
    Parted (prepend [c] x) (prepend [c] y) := by
  intro p hp
  obtain ⟨p', hp', rfl⟩ := Option.map_eq_some_iff.1 hp
  obtain ⟨r, rfl, hfirst, hrest⟩ := h p' hp'
  exact ⟨_, rfl, .cons c hfirst, hrest⟩

theorem Parted.mark {x y : Option (List Char × List Char)} (h : Parted x y) (c d : Color) :
    Parted (prepend c.mark x) (prepend d.mark y) := by
  intro p hp
  obtain ⟨p', hp', rfl⟩ := Option.map_eq_some_iff.1 hp
  obtain ⟨r, rfl, hfirst, hrest⟩ := h p' hp'
  exact ⟨_, rfl, .mark c d hfirst, hrest⟩

theorem Parted.isSome_eq {x y : Option (List Char × List Char)} (h : Parted x y) (h' : Parted y x) :
    x.isSome = y.isSome := by
  cases x with
  | some p =>
    obtain ⟨r, rfl, -⟩ := h p rfl
    rfl
  | none =>
    cases y with
    | none => rfl
    | some r =>
      obtain ⟨p, hp, -⟩ := h' r rfl
      cases hp

/-- **The end of a token is at the same place.** -/
theorem cut_closer_recolored {s t : List Char} (h : Recolored s t) :
    Parted (Text.cut ['\x7d', '\x7d'] s) (Text.cut ['\x7d', '\x7d'] t) := by
  induction h with
  | nil => exact Parted.none _
  | cons c h ih =>
    rename_i s t
    by_cases hstart : c = '\x7d' ∧ s.head? = some '\x7d'
    · obtain ⟨rfl, hs⟩ := hstart
      obtain ⟨s', rfl⟩ := List.head?_eq_some_iff.1 hs
      obtain ⟨t', rfl, h'⟩ := h.of_cons (by decide)
      exact Parted.start h'
    · have hnone : ∀ u : List Char, u.head? = s.head? →
          Text.cut ['\x7d', '\x7d'] (c :: u) = prepend [c] (Text.cut ['\x7d', '\x7d'] u) := by
        intro u hu
        have hdrop : Text.dropStart ['\x7d', '\x7d'] (c :: u) = none := by
          cases u with
          | nil => simp [Text.dropStart]
          | cons d u =>
            rw [← hu] at hstart
            simp only [Text.dropStart]
            split
            · rename_i hc
              exact if_neg fun hd => hstart ⟨hc.symm, by rw [hd]; rfl⟩
            · rfl
        rw [Text.cut, hdrop]
        rfl
      rw [hnone s rfl, hnone t h.head.symm]
      exact ih.cons c
  | mark c d h ih =>
    rw [cut_closer_word (quiet_mark c), cut_closer_word (quiet_mark d)]
    exact ih.mark c d

theorem contains_closer_recolored {s t : List Char} (h : Recolored s t) :
    Text.contains ['\x7d', '\x7d'] s = Text.contains ['\x7d', '\x7d'] t :=
  (cut_closer_recolored h).isSome_eq (cut_closer_recolored h.symm)

/-- What counting braces does with the text after an escape: it keeps the next character, whatever it is. -/
def takeEscaped (depth : Nat) (q : Option Char) : List Char → Option (List Char × List Char)
  | [] => none
  | c :: s => prepend [c] (takeBraced depth q s)

/-- What counting braces does with a character. -/
theorem takeBraced_cons (depth : Nat) {q : Option Char} (hq : Quoting q) (c : Char) :
    (∀ s, takeBraced depth q (c :: s) = some ([], s)) ∨
      (∃ depth' q', Quoting q' ∧ ∀ s, takeBraced depth q (c :: s) = prepend [c] (takeBraced depth' q' s)) ∨
      ∀ s, takeBraced depth q (c :: s) = prepend [c] (takeEscaped depth q s) := by
  cases q with
  | none =>
    by_cases hquote : c = '"' ∨ c = '\''
    · refine Or.inr (Or.inl ⟨depth, some c, fun x hx => ?_, fun s => ?_⟩)
      · cases hx
        exact hquote
      · rw [takeBraced_none, if_pos hquote]
    · by_cases hopen : c = '\x7b'
      · exact Or.inr (Or.inl ⟨depth + 1, none, quoting_none, fun s => by
          rw [takeBraced_none, if_neg hquote, if_pos hopen]⟩)
      · by_cases hclose : c = '\x7d'
        · by_cases hdepth : depth = 0
          · exact Or.inl fun s => by
              rw [takeBraced_none, if_neg hquote, if_neg hopen, if_pos hclose, if_pos hdepth]
          · exact Or.inr (Or.inl ⟨depth - 1, none, quoting_none, fun s => by
              rw [takeBraced_none, if_neg hquote, if_neg hopen, if_pos hclose, if_neg hdepth]⟩)
        · exact Or.inr (Or.inl ⟨depth, none, quoting_none, fun s => by
            rw [takeBraced_none, if_neg hquote, if_neg hopen, if_neg hclose]⟩)
  | some x =>
    by_cases hescape : c = '\\'
    · subst hescape
      refine Or.inr (Or.inr fun s => ?_)
      cases s with
      | nil => rfl
      | cons d s =>
        rw [takeBraced, takeEscaped, prepend_prepend]
        rfl
    · refine Or.inr (Or.inl ⟨depth, if c = x then none else some x, ?_, takeBraced_some depth hescape x⟩)
      split
      · exact quoting_none
      · exact hq

/-- **The brace that closes a token is at the same place.**  An escape may come right before a color, and then
the two texts go on within it. -/
theorem takeBraced_recolored {s t : List Char} (h : Recolored s t) :
    ∀ (depth : Nat) (q : Option Char), Quoting q →
      Parted (takeBraced depth q s) (takeBraced depth q t) ∧
        Parted (takeEscaped depth q s) (takeEscaped depth q t) := by
  induction h with
  | nil =>
    intro depth q hq
    refine ⟨?_, Parted.none _⟩
    rw [takeBraced]
    exact Parted.none _
  | cons c h ih =>
    intro depth q hq
    refine ⟨?_, (ih depth q hq).1.cons c⟩
    rcases takeBraced_cons depth hq c with hend | ⟨depth', q', hq', hstep⟩ | hescape
    · rw [hend, hend]
      exact Parted.start h
    · rw [hstep, hstep]
      exact (ih depth' q' hq').1.cons c
    · rw [hescape, hescape]
      exact (ih depth q hq).2.cons c
  | mark c d h ih =>
    rename_i s t
    intro depth q hq
    have hword : ∀ (e : Color) (u : List Char),
        takeBraced depth q (e.mark ++ u) = prepend e.mark (takeBraced depth q u) :=
      fun e u => takeBraced_word (quiet_mark e) hq u
    have hescaped : ∀ (e : Color) (u : List Char),
        takeEscaped depth q (e.mark ++ u) = prepend e.mark (takeBraced depth q u) := by
      intro e u
      have hrest : takeBraced depth q (e.name.toList ++ ['.'] ++ u)
          = prepend (e.name.toList ++ ['.']) (takeBraced depth q u) :=
        takeBraced_word (fun x hx => quiet_mark e x (List.mem_cons_of_mem _ hx)) hq u
      show prepend ['@'] (takeBraced depth q (e.name.toList ++ ['.'] ++ u)) = _
      rw [hrest, prepend_prepend]
      rfl
    rw [hword, hword, hescaped, hescaped]
    exact ⟨(ih depth q hq).1.mark c d, (ih depth q hq).1.mark c d⟩

/-- A token that does not begin with two braces ends at the brace that closes its own. -/
theorem takeToken_of_head {s : List Char} (h : s.head? ≠ some '\x7b') : takeToken s = takeBraced 0 none s := by
  unfold takeToken
  split
  · exact absurd rfl h
  · rfl

/-- **The token at the front of a text ends at the same place.** -/
theorem takeToken_recolored {s t : List Char} (h : Recolored s t) : Parted (takeToken s) (takeToken t) := by
  by_cases hopen : s.head? = some '\x7b'
  · obtain ⟨s', rfl⟩ := List.head?_eq_some_iff.1 hopen
    obtain ⟨t', rfl, h'⟩ := h.of_cons (by decide)
    exact cut_closer_recolored h'
  · have hopen' : t.head? ≠ some '\x7b' := h.head ▸ hopen
    rw [takeToken_of_head hopen, takeToken_of_head hopen']
    exact (takeBraced_recolored h 0 none quoting_none).1

theorem takeToken_eq_none_of_recolored {s t : List Char} (h : Recolored s t) (hs : takeToken s = none) :
    takeToken t = none := by
  have hsame := (takeToken_recolored h).isSome_eq (takeToken_recolored h.symm)
  rw [hs] at hsame
  exact Option.isNone_iff_eq_none.1 (Option.isSome_eq_false_iff.1 hsame.symm)

/-! ### Blanks -/

/-- Blanks are cut off behind a last character that is none. -/
theorem trimEnd_append_of_ink {w : List Char} (hw : ∀ c, w.getLast? = some c → Text.isBlank c = false)
    (s : List Char) : Text.trimEnd (w ++ s) = w ++ Text.trimEnd s := by
  have hself : w.reverse.dropWhile Text.isBlank = w.reverse := by
    rw [← List.reverse_inj, List.reverse_reverse]
    exact Text.trimEnd_eq_self hw
  unfold Text.trimEnd
  rw [List.reverse_append, List.dropWhile_append]
  split
  · rename_i hempty
    rw [List.isEmpty_iff.1 hempty, hself]
    simp
  · simp

/-- What cutting off blanks at the end does with a character. -/
theorem trimEnd_cons (c : Char) (s : List Char) :
    Text.trimEnd (c :: s)
      = if Text.trimEnd s = [] ∧ Text.isBlank c = true then [] else c :: Text.trimEnd s := by
  unfold Text.trimEnd
  rw [List.reverse_cons, List.dropWhile_append]
  split
  · rename_i hempty
    rw [List.isEmpty_iff] at hempty
    rw [hempty]
    cases hblank : Text.isBlank c with
    | true => simp [hblank]
    | false => simp [hblank]
  · rename_i hsome
    rw [List.isEmpty_iff] at hsome
    rw [if_neg fun h => hsome (List.reverse_eq_nil_iff.1 h.1)]
    simp

theorem trimEnd_mark (c : Color) (s : List Char) : Text.trimEnd (c.mark ++ s) = c.mark ++ Text.trimEnd s := by
  have hdot : c.mark.getLast? = some '.' := by cases c <;> rfl
  refine trimEnd_append_of_ink (fun x hx => ?_) s
  rw [hdot] at hx
  cases hx
  rfl

theorem trimEnd_recolored {s t : List Char} (h : Recolored s t) :
    Recolored (Text.trimEnd s) (Text.trimEnd t) := by
  induction h with
  | nil => exact .nil
  | cons c h ih =>
    rename_i s t
    have hnil : Text.trimEnd s = [] ↔ Text.trimEnd t = [] := by
      rw [← List.isEmpty_iff, ih.isEmpty, List.isEmpty_iff]
    rw [trimEnd_cons, trimEnd_cons, if_congr (and_congr_left' hnil) rfl rfl]
    split
    · exact .nil
    · exact ih.cons c
  | mark c d h ih =>
    rw [trimEnd_mark, trimEnd_mark]
    exact ih.mark c d

theorem trimStart_recolored {s t : List Char} (h : Recolored s t) :
    Recolored (Text.trimStart s) (Text.trimStart t) := by
  unfold Text.trimStart
  induction h with
  | nil => exact .nil
  | cons c h ih =>
    rw [List.dropWhile_cons, List.dropWhile_cons]
    split
    · exact ih
    · exact h.cons c
  | mark c d h ih => exact h.mark c d

theorem trim_recolored {s t : List Char} (h : Recolored s t) : Recolored (Text.trim s) (Text.trim t) :=
  trimEnd_recolored (trimStart_recolored h)

/-! ### Tokens -/

/-- A character that opens no token is passed over. -/
theorem expressions_scan_cons (text : List Char) (dollar : Bool) {c : Char} {s : List Char}
    (h : ¬ (c = '$' ∧ s.head? = some '\x7b')) :
    expressions (scan text dollar (c :: s)) = expressions (scan (c :: text) (c = '$') s) := by
  rw [scan_cons text dollar h]

/-- An opener after a dollar sign is passed over. -/
theorem expressions_scan_escaped (text s : List Char) :
    expressions (scan text true ('$' :: '\x7b' :: s)) = expressions (scan ('\x7b' :: '$' :: text) false s) := by
  rw [scan, if_pos ⟨rfl, rfl⟩, if_pos rfl]

/-- Any other opener starts a token if that ends. -/
theorem expressions_scan_opener (text s : List Char) :
    expressions (scan text false ('$' :: '\x7b' :: s)) = match takeToken s with
      | some (e, rest) => String.ofList (Text.trim e) :: expressions (scan [] false rest)
      | none => [] := by
  cases htake : takeToken s with
  | some p =>
    rw [scan_token text htake, expressions_append, expressions_flush]
    rfl
  | none =>
    rw [scan_unclosed text htake]
    exact expressions_flush _

theorem expressions_scan_word {w : List Char} (hw : ∀ x ∈ w, Quiet x) (hne : w ≠ []) (text : List Char)
    (dollar : Bool) (s : List Char) :
    ∃ text', expressions (scan text dollar (w ++ s)) = expressions (scan text' false s) := by
  induction w generalizing text dollar with
  | nil => exact absurd rfl hne
  | cons c w ih =>
    have hc : c ≠ '$' := fun e => hw c List.mem_cons_self (by rw [e]; decide)
    have hstep := expressions_scan_cons text dollar (s := w ++ s) fun h => hc h.1
    rw [decide_eq_false hc] at hstep
    rw [List.cons_append, hstep]
    cases w with
    | nil => exact ⟨_, rfl⟩
    | cons d w => exact ih (fun x hx => hw x (List.mem_cons_of_mem c hx)) (List.cons_ne_nil _ _) _ _

/-- **Texts that differ in colors have tokens that differ in colors.** -/
theorem expressions_recolored {s t : List Char} (h : Recolored s t) (text text' : List Char) (dollar : Bool) :
    List.Forall₂ (fun e e' => Recolored e.toList e'.toList) (expressions (scan text dollar s))
      (expressions (scan text' dollar t)) := by
  induction hlength : s.length using Nat.strongRecOn generalizing s t text text' dollar with
  | _ n ih =>
  cases h with
  | nil =>
    rw [scan, scan, expressions_flush, expressions_flush]
    exact .nil
  | mark c d h =>
    rename_i s t
    have hshort : s.length < n := by
      rw [← hlength, List.length_append, Color.mark, List.length_cons]
      omega
    obtain ⟨u, hu⟩ := expressions_scan_word (quiet_mark c) (List.cons_ne_nil _ _) text dollar s
    obtain ⟨v, hv⟩ := expressions_scan_word (quiet_mark d) (List.cons_ne_nil _ _) text' dollar t
    rw [hu, hv]
    exact ih s.length hshort h u v false rfl
  | cons c h =>
    rename_i s t
    rw [List.length_cons] at hlength
    by_cases hopen : c = '$' ∧ s.head? = some '\x7b'
    · obtain ⟨rfl, hs⟩ := hopen
      obtain ⟨s, rfl⟩ := List.head?_eq_some_iff.1 hs
      obtain ⟨t, rfl, h'⟩ := h.of_cons (by decide)
      rw [List.length_cons] at hlength
      cases dollar with
      | true =>
        rw [expressions_scan_escaped, expressions_scan_escaped]
        exact ih s.length (by omega) h' _ _ false rfl
      | false =>
        rw [expressions_scan_opener, expressions_scan_opener]
        cases htake : takeToken s with
        | none =>
          rw [takeToken_eq_none_of_recolored h' htake]
          exact .nil
        | some p =>
          obtain ⟨r, hr, hfirst, hrest⟩ := takeToken_recolored h' p htake
          have hshort := takeToken_length htake
          rw [hr]
          refine .cons ?_ (ih p.2.length (by omega) hrest [] [] false rfl)
          rw [String.toList_ofList, String.toList_ofList]
          exact trim_recolored hfirst
    · rw [expressions_scan_cons text dollar hopen,
        expressions_scan_cons text' dollar (by rw [← h.head]; exact hopen)]
      exact ih s.length (by omega) h _ _ _ rfl

/-! ### Values under two rewritings -/

variable {f g : String → String} {r r' : String → Id (Option Value)}

/-- Whether two lists of expressions differ in colors only. -/
def SameTokens (l l' : List String) : Prop := List.Forall₂ (fun e e' => Recolored e.toList e'.toList) l l'

theorem SameTokens.exists_of_mem {l l' : List String} (h : SameTokens l l') {e' : String} (he : e' ∈ l') :
    ∃ e ∈ l, Recolored e.toList e'.toList := by
  induction h with
  | nil => cases he
  | cons hhead htail ih =>
    rcases List.mem_cons.1 he with rfl | he
    · exact ⟨_, List.mem_cons_self, hhead⟩
    · obtain ⟨e, hmem, h⟩ := ih he
      exact ⟨e, List.mem_cons_of_mem _ hmem, h⟩

theorem rewritten_recolored {l : List Segment}
    (h : ∀ e ∈ expressions l, Recolored (f e).toList (g e).toList) :
    Recolored (rewritten f l) (rewritten g l) := by
  induction l with
  | nil => exact .nil
  | cons s l ih =>
    cases s with
    | text t => exact (Recolored.refl t.toList).append (ih h)
    | expr e =>
      have htoken : Recolored (renderToken (f e)).toList (renderToken (g e)).toList := by
        unfold renderToken
        rw [String.toList_append, String.toList_append, String.toList_append, String.toList_append]
        exact ((Recolored.refl _).append (h e List.mem_cons_self)).append (Recolored.refl _)
      exact htoken.append (ih fun x hx => h x (List.mem_cons_of_mem e hx))

theorem visitExpressions_mapText_recolored (hr : Rewrites f r) (hr' : Rewrites g r') {s : String}
    (h : ∀ e ∈ expressions (parse s), Recolored (f e).toList (g e).toList) :
    SameTokens (visitExpressions (Id.run (mapText r s))) (visitExpressions (Id.run (mapText r' s))) := by
  rw [mapText_of_rewrites hr, mapText_of_rewrites hr', visitExpressions, visitExpressions]
  split
  · unfold parse
    rw [String.toList_ofList, String.toList_ofList]
    exact expressions_recolored (rewritten_recolored h) [] [] false
  · exact expressions_recolored (Recolored.refl s.toList) [] [] false

mutual

/-- **Two rewritings that differ in colors leave a value with tokens that differ in colors**, whatever becomes of
the tokens. -/
theorem visitExpressions_recolored (hr : Rewrites f r) (hr' : Rewrites g r') : ∀ {v : Value},
    (∀ e ∈ visitExpressions v, Recolored (f e).toList (g e).toList) →
    SameTokens (visitExpressions (Id.run (mapExpressions r v)))
      (visitExpressions (Id.run (mapExpressions r' v)))
  | .str s, h => by
    rw [mapExpressions, mapExpressions]
    exact visitExpressions_mapText_recolored hr hr' h
  | .arr items, h => by
    rw [mapExpressions, mapExpressions]
    exact visitItems_recolored hr hr' h
  | .obj fields, h => by
    rw [mapExpressions, mapExpressions]
    exact visitFields_recolored hr hr' h
  | .null, h => .nil
  | .bool b, h => .nil
  | .num n, h => .nil

theorem visitItems_recolored (hr : Rewrites f r) (hr' : Rewrites g r') : ∀ {vs : List Value},
    (∀ e ∈ visitExpressions.visitItems vs, Recolored (f e).toList (g e).toList) →
    SameTokens (visitExpressions.visitItems (Id.run (mapExpressions.mapItems r vs)))
      (visitExpressions.visitItems (Id.run (mapExpressions.mapItems r' vs)))
  | [], h => .nil
  | v :: vs, h => by
    rw [mapExpressions.mapItems, mapExpressions.mapItems]
    exact List.rel_append (visitExpressions_recolored hr hr' fun e he => h e (List.mem_append_left _ he))
      (visitItems_recolored hr hr' fun e he => h e (List.mem_append_right _ he))

theorem visitFields_recolored (hr : Rewrites f r) (hr' : Rewrites g r') : ∀ {vs : List (String × Value)},
    (∀ e ∈ visitExpressions.visitFields vs, Recolored (f e).toList (g e).toList) →
    SameTokens (visitExpressions.visitFields (Id.run (mapExpressions.mapFields r vs)))
      (visitExpressions.visitFields (Id.run (mapExpressions.mapFields r' vs)))
  | [], h => .nil
  | (k, v) :: vs, h => by
    rw [mapExpressions.mapFields, mapExpressions.mapFields]
    exact List.rel_append (visitExpressions_recolored hr hr' fun e he => h e (List.mem_append_left _ he))
      (visitFields_recolored hr hr' fun e he => h e (List.mem_append_right _ he))

end

end Template

end Groundwork
