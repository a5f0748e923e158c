import Mathlib.Computability.Language
import Groundwork.Config.Check
import Groundwork.Proofs.Template.Rewriting

/-!
# The grammar of names

The check of a name looks at its characters, at its last character, and for two hyphens in a row.  The grammar says
instead how a name is put together: `[a-z][a-z0-9]*`, and then any number of groups `-[a-z0-9]+`.

What may follow the first letter of a name is described by `Tail`, which can be read from the left: a letter or a
digit may stand before any tail, a hyphen only before one that begins with a letter or a digit.

Main statements: a tail is letters and digits and then groups (`tail_iff`), so the check accepts exactly the words
of the grammar (`isName_iff`).
-/

namespace Groundwork.Config

open Computability

/-! ### The language of names -/

/-- The words of one character of a class. -/
def oneOf (p : Char → Bool) : Language Char := {w | ∃ c, p c = true ∧ w = [c]}

/-- Whether a character is a small letter or a digit. -/
def isPlainChar (c : Char) : Bool := c.isLower || c.isDigit

/-- The words `[a-z][a-z0-9]*(-[a-z0-9]+)*`. -/
def names : Language Char :=
  oneOf Char.isLower * (oneOf isPlainChar)∗ * (oneOf (· = '-') * (oneOf isPlainChar * (oneOf isPlainChar)∗))∗

variable {p : Char → Bool} {c : Char} {w cs : List Char}

theorem mem_oneOf_mul {l : Language Char} : w ∈ oneOf p * l ↔ ∃ c u, p c = true ∧ u ∈ l ∧ w = c :: u := by
  rw [Language.mem_mul]
  constructor
  · intro h
    obtain ⟨a, ha, u, hu, rfl⟩ := h
    obtain ⟨c, hc, rfl⟩ := ha
    exact ⟨c, u, hc, hu, rfl⟩
  · intro h
    obtain ⟨c, u, hc, hu, rfl⟩ := h
    exact ⟨[c], ⟨c, hc, rfl⟩, u, hu, rfl⟩

theorem mem_oneOf_kstar : w ∈ (oneOf p)∗ ↔ ∀ c ∈ w, p c = true := by
  rw [Language.mem_kstar]
  constructor
  · intro h c hc
    obtain ⟨words, rfl, hwords⟩ := h
    obtain ⟨word, hword, hmem⟩ := List.mem_flatten.1 hc
    obtain ⟨d, hd, rfl⟩ := hwords word hword
    rwa [List.mem_singleton.1 hmem]
  · intro h
    refine ⟨w.map fun c => [c], by rw [← List.flatMap_def, List.flatMap_singleton'], fun word hword => ?_⟩
    obtain ⟨c, hc, rfl⟩ := List.mem_map.1 hword
    exact ⟨c, h c hc, rfl⟩

/-- The words of a group, without the hyphen in front. -/
theorem mem_group_iff : w ∈ oneOf isPlainChar * (oneOf isPlainChar)∗ ↔ w ≠ [] ∧ ∀ c ∈ w, isPlainChar c = true := by
  rw [mem_oneOf_mul]
  constructor
  · intro h
    obtain ⟨c, u, hc, hu, rfl⟩ := h
    rw [mem_oneOf_kstar] at hu
    exact ⟨List.cons_ne_nil c u, List.forall_mem_cons.2 ⟨hc, hu⟩⟩
  · intro h
    obtain ⟨hne, hall⟩ := h
    obtain ⟨c, u, rfl⟩ := List.exists_cons_of_ne_nil hne
    obtain ⟨hc, hu⟩ := List.forall_mem_cons.1 hall
    exact ⟨c, u, hc, mem_oneOf_kstar.2 hu, rfl⟩

/-- Letters and digits, and then groups of them, each behind a hyphen. -/
def Grouped (cs : List Char) : Prop :=
  ∃ (front : List Char) (groups : List (List Char)), (∀ c ∈ front, isPlainChar c = true) ∧
    (∀ group ∈ groups, group ≠ [] ∧ ∀ c ∈ group, isPlainChar c = true) ∧
      cs = front ++ groups.flatMap fun group => '-' :: group

theorem mem_groups_iff : w ∈ (oneOf (· = '-') * (oneOf isPlainChar * (oneOf isPlainChar)∗))∗ ↔
    ∃ groups : List (List Char), (∀ group ∈ groups, group ≠ [] ∧ ∀ c ∈ group, isPlainChar c = true) ∧
      w = groups.flatMap fun group => '-' :: group := by
  rw [Language.mem_kstar]
  constructor
  · intro h
    obtain ⟨words, rfl, hwords⟩ := h
    induction words with
    | nil => exact ⟨[], by simp, rfl⟩
    | cons word words ih =>
      obtain ⟨groups, hgroups, heq⟩ := ih fun y hy => hwords y (List.mem_cons_of_mem _ hy)
      obtain ⟨c, group, hc, hgroup, rfl⟩ := mem_oneOf_mul.1 (hwords word List.mem_cons_self)
      obtain rfl : c = '-' := of_decide_eq_true hc
      refine ⟨group :: groups, List.forall_mem_cons.2 ⟨mem_group_iff.1 hgroup, hgroups⟩, ?_⟩
      rw [List.flatten_cons, heq, List.flatMap_cons]
  · intro h
    obtain ⟨groups, hgroups, rfl⟩ := h
    refine ⟨groups.map fun group => '-' :: group, by rw [List.flatMap_def], fun word hword => ?_⟩
    obtain ⟨group, hgroup, rfl⟩ := List.mem_map.1 hword
    exact mem_oneOf_mul.2 ⟨'-', group, rfl, mem_group_iff.2 (hgroups group hgroup), rfl⟩

theorem cons_mem_names_iff : c :: cs ∈ names ↔ c.isLower = true ∧ Grouped cs := by
  rw [names, mul_assoc, mem_oneOf_mul]
  constructor
  · intro h
    obtain ⟨d, u, hd, hu, heq⟩ := h
    obtain ⟨rfl, rfl⟩ := List.cons.inj heq
    obtain ⟨front, hfront, back, hback, rfl⟩ := Language.mem_mul.1 hu
    obtain ⟨groups, hgroups, rfl⟩ := mem_groups_iff.1 hback
    exact ⟨hd, front, groups, mem_oneOf_kstar.1 hfront, hgroups, rfl⟩
  · intro h
    obtain ⟨hc, front, groups, hfront, hgroups, rfl⟩ := h
    refine ⟨c, _, hc, Language.mem_mul.2 ⟨front, mem_oneOf_kstar.2 hfront, _, ?_, rfl⟩, rfl⟩
    exact mem_groups_iff.2 ⟨groups, hgroups, rfl⟩

theorem nil_not_mem_names : [] ∉ names := by
  rw [names, mul_assoc, mem_oneOf_mul]
  intro h
  obtain ⟨c, u, -, -, heq⟩ := h
  cases heq

/-! ### What follows the first letter -/

/-- What the check asks of the characters behind the first. -/
structure Tail (cs : List Char) : Prop where
  chars : ∀ c ∈ cs, isNameChar c = true
  last : cs.getLast? ≠ some '-'
  single : Text.contains ['-', '-'] cs = false

theorem isNameChar_iff : isNameChar c = true ↔ isPlainChar c = true ∨ c = '-' := by
  simp [isNameChar, isPlainChar]

theorem ne_hyphen_of_isPlainChar (h : isPlainChar c = true) : c ≠ '-' := by
  intro heq
  rw [heq] at h
  exact absurd h (by decide)

theorem tail_nil : Tail [] := ⟨by simp, by simp, rfl⟩

/-- A letter or a digit may stand before any tail. -/
theorem tail_cons_of_isPlainChar (h : isPlainChar c = true) : Tail (c :: cs) ↔ Tail cs := by
  have hne : c ≠ '-' := ne_hyphen_of_isPlainChar h
  have hlast : (c :: cs).getLast? ≠ some '-' ↔ cs.getLast? ≠ some '-' := by
    cases cs with
    | nil => simpa using hne
    | cons d ds => rw [List.getLast?_cons_cons]
  have hsingle : Text.contains ['-', '-'] (c :: cs) = Text.contains ['-', '-'] cs := by
    rw [Text.contains_cons]
    simp [Text.dropStart, Ne.symm hne]
  constructor
  · intro ht
    exact ⟨fun d hd => ht.chars d (List.mem_cons_of_mem c hd), hlast.1 ht.last, hsingle ▸ ht.single⟩
  · intro ht
    exact ⟨List.forall_mem_cons.2 ⟨isNameChar_iff.2 (Or.inl h), ht.chars⟩, hlast.2 ht.last, hsingle ▸ ht.single⟩

/-- A hyphen stands only before a letter or a digit. -/
theorem tail_hyphen_iff : Tail ('-' :: cs) ↔ Tail cs ∧ ∃ c ds, isPlainChar c = true ∧ cs = c :: ds := by
  constructor
  · intro ht
    cases cs with
    | nil => exact absurd rfl ht.last
    | cons c ds =>
      have hchars := (List.forall_mem_cons.1 ht.chars).2
      have hsingle := ht.single
      rw [Text.contains_cons, Bool.or_eq_false_iff] at hsingle
      have hne : c ≠ '-' := by
        intro heq
        simp [Text.dropStart, heq] at hsingle
      have hplain : isPlainChar c = true := (isNameChar_iff.1 (hchars c List.mem_cons_self)).resolve_right hne
      refine ⟨⟨hchars, ?_, hsingle.2⟩, c, ds, hplain, rfl⟩
      rw [← List.getLast?_cons_cons]
      exact ht.last
  · intro h
    obtain ⟨ht, c, ds, hc, rfl⟩ := h
    refine ⟨List.forall_mem_cons.2 ⟨rfl, ht.chars⟩, ?_, ?_⟩
    · rw [List.getLast?_cons_cons]
      exact ht.last
    · rw [Text.contains_cons, ht.single]
      simp [Text.dropStart, Ne.symm (ne_hyphen_of_isPlainChar hc)]

/-- Letters and digits may stand before any tail. -/
theorem tail_append {front : List Char} (hfront : ∀ c ∈ front, isPlainChar c = true) (ht : Tail cs) :
    Tail (front ++ cs) := by
  induction front with
  | nil => exact ht
  | cons c front ih =>
    obtain ⟨hc, hrest⟩ := List.forall_mem_cons.1 hfront
    exact (tail_cons_of_isPlainChar hc).2 (ih hrest)

/-- **A tail is letters and digits, and then groups of them.** -/
theorem tail_iff : Tail cs ↔ Grouped cs := by
  constructor
  · intro ht
    induction cs with
    | nil => exact ⟨[], [], by simp, by simp, rfl⟩
    | cons c cs ih =>
      rcases isNameChar_iff.1 (ht.chars c List.mem_cons_self) with hc | rfl
      · obtain ⟨front, groups, hfront, hgroups, rfl⟩ := ih ((tail_cons_of_isPlainChar hc).1 ht)
        exact ⟨c :: front, groups, List.forall_mem_cons.2 ⟨hc, hfront⟩, hgroups, rfl⟩
      · obtain ⟨hrest, d, ds, hd, heq⟩ := tail_hyphen_iff.1 ht
        obtain ⟨front, groups, hfront, hgroups, rfl⟩ := ih hrest
        -- the front cannot be empty, or the rest would begin with a hyphen
        have hne : front ≠ [] := by
          rintro rfl
          cases groups with
          | nil => cases heq
          | cons group groups => exact ne_hyphen_of_isPlainChar hd (List.cons.inj heq).1.symm
        exact ⟨[], front :: groups, by simp, List.forall_mem_cons.2 ⟨⟨hne, hfront⟩, hgroups⟩, rfl⟩
  · intro h
    obtain ⟨front, groups, hfront, hgroups, rfl⟩ := h
    refine tail_append hfront ?_
    induction groups with
    | nil => exact tail_nil
    | cons group groups ih =>
      obtain ⟨⟨hne, hgroup⟩, hrest⟩ := List.forall_mem_cons.1 hgroups
      obtain ⟨c, ds, rfl⟩ := List.exists_cons_of_ne_nil hne
      have htail := tail_append hgroup (ih hrest)
      exact tail_hyphen_iff.2 ⟨htail, c, _, hgroup c List.mem_cons_self, rfl⟩

/-- **The check of names accepts exactly the words of the grammar.** -/
theorem isName_iff {name : String} : isName name = true ↔ name.toList ∈ names := by
  cases hlist : name.toList with
  | nil =>
    have hfalse : isName name = false := by simp [isName, hlist]
    rw [hfalse]
    exact iff_of_false Bool.false_ne_true nil_not_mem_names
  | cons c cs =>
    rw [cons_mem_names_iff, ← tail_iff]
    have hcheck : isName name = true ↔ c.isLower = true ∧ (∀ d ∈ cs, isNameChar d = true) ∧
        (c :: cs).getLast? ≠ some '-' ∧ Text.contains ['-', '-'] (c :: cs) = false := by
      simp [isName, hlist, and_assoc]
    rw [hcheck]
    refine and_congr_right fun hc => ?_
    have hplain : isPlainChar c = true := by rw [isPlainChar, hc, Bool.true_or]
    rw [← tail_cons_of_isPlainChar hplain]
    constructor
    · intro h
      exact ⟨List.forall_mem_cons.2 ⟨isNameChar_iff.2 (Or.inl hplain), h.1⟩, h.2.1, h.2.2⟩
    · intro ht
      exact ⟨(List.forall_mem_cons.1 ht.chars).2, ht.last, ht.single⟩

end Groundwork.Config
