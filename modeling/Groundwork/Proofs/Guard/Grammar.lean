import Mathlib.Algebra.Group.Int.Defs
import Mathlib.Algebra.Group.Nat.Defs
import Groundwork.Guard.Parser

/-!
# The grammar of guards, as a relation

What a list of tokens means is said here without a word on how it is read.  A phrase of each kind is made of
smaller phrases:

* a disjunction is a conjunction, or a disjunction, the sign `||` and a conjunction;
* a conjunction is a comparison, or a conjunction, the sign `&&` and a comparison;
* a comparison is an operand, or two operands with one of six signs between them;
* an operand is a primary phrase, or the sign `!` and an operand;
* a primary phrase is a literal, a call, a path, or a disjunction in parentheses.

That the first two grow at their left end makes both operators associate to the left, and that a comparison has
operands on both sides keeps comparisons from being chained.

Main statements: each leaf of the grammar is what the reader takes for one (`numberValue?_eq_some_iff`,
`readIndex?_eq_some_iff`, `dotted_iff`, `literalWord?_eq_some_iff`, `comparison?_eq_some_iff`).
-/

namespace Groundwork.Guard

/-! ### Leaves -/

/-- Whether a text is the numeral of an integer: a sign or none, and then digits. -/
inductive SpellsInteger : List Char → Int → Prop
  | plain {ds : List Char} (some_digit : ds ≠ []) (digits : ∀ c ∈ ds, c.isDigit = true) :
      SpellsInteger ds (Decimal.digitsValue ds)
  | plus {ds : List Char} (some_digit : ds ≠ []) (digits : ∀ c ∈ ds, c.isDigit = true) :
      SpellsInteger ('+' :: ds) (Decimal.digitsValue ds)
  | minus {ds : List Char} (some_digit : ds ≠ []) (digits : ∀ c ∈ ds, c.isDigit = true) :
      SpellsInteger ('-' :: ds) (-Decimal.digitsValue ds)

/-- The integers of 64 bits with a sign. -/
def IsWord64 (n : Int) : Prop := -2 ^ 63 ≤ n ∧ n < 2 ^ 63

/-- Whether a text is the numeral of a number: an integer if it is one of 64 bits, else the nearest
floating-point number if there is a finite one. -/
inductive SpellsNumber (text : String) : Value → Prop
  | integer {n : Int} (spelled : SpellsInteger text.toList n) (fits : IsWord64 n) :
      SpellsNumber text (.num (.int n))
  | float {x : Float} (wide : ∀ n, SpellsInteger text.toList n → ¬ IsWord64 n)
      (read : Decimal.readFloat? text.toList = some x) (finite : x.isFinite = true) :
      SpellsNumber text (.num (.float x.toBits))

/-- Whether a text is the numeral of an index: a natural number that fits a machine word. -/
def SpellsIndex (text : String) (n : Nat) : Prop :=
  ∃ ds : List Char, (text.toList = ds ∨ text.toList = '+' :: ds) ∧ ds ≠ [] ∧ (∀ c ∈ ds, c.isDigit = true) ∧
    Decimal.digitsValue ds = n ∧ n < 2 ^ 64

/-- Whether a text consists of these names with points between them. -/
inductive Dotted : List Char → List String → Prop
  | last {name : List Char} (no_point : '.' ∉ name) : Dotted name [String.ofList name]
  | more {name rest : List Char} {names : List String} (no_point : '.' ∉ name) (others : Dotted rest names) :
      Dotted (name ++ '.' :: rest) (String.ofList name :: names)

/-- The literal words and their values. -/
inductive LiteralWord : String → Value → Prop
  | isTrue : LiteralWord "true" (.bool true)
  | isFalse : LiteralWord "false" (.bool false)
  | isNull : LiteralWord "null" .null

/-- Whether tokens lead on from the first word of a path, by these steps. -/
inductive PathTail : List Token → Path → Prop
  | nil : PathTail [] []
  | field {name : String} {ts : List Token} {p : Path} (rest : PathTail ts p) :
      PathTail (.dot :: .word name :: ts) (.field name :: p)
  /-- A number with points in it is read as one token, but stands for a field between each two of them. -/
  | fields {text : String} {names : List String} {ts : List Token} {p : Path} (dotted : Dotted text.toList names)
      (rest : PathTail ts p) : PathTail (.dot :: .number text :: ts) (names.map .field ++ p)
  | index {text : String} {n : Nat} {ts : List Token} {p : Path} (spelled : SpellsIndex text n)
      (rest : PathTail ts p) :
      PathTail (.leftBracket :: .number text :: .rightBracket :: ts) (.index n :: p)
  | quoted {name : String} {ts : List Token} {p : Path} (rest : PathTail ts p) :
      PathTail (.leftBracket :: .str name :: .rightBracket :: ts) (.field name :: p)

/-- The signs of comparisons. -/
inductive ComparisonSign : Token → BinaryOp → Prop
  | eq : ComparisonSign .eq .eq
  | ne : ComparisonSign .ne .ne
  | lt : ComparisonSign .lt .lt
  | le : ComparisonSign .le .le
  | gt : ComparisonSign .gt .gt
  | ge : ComparisonSign .ge .ge

/-! ### Phrases -/

/-- The kinds of phrases. -/
inductive Phrase where
  | disjunction | conjunction | comparison | operand | primary
  deriving DecidableEq, Repr

/-- Whether tokens are a phrase of this kind, with this expression as its tree. -/
inductive Derives : Phrase → List Token → Expr → Prop
  | conjunction {ts : List Token} {e : Expr} (only : Derives .conjunction ts e) : Derives .disjunction ts e
  | or {ts us : List Token} {l r : Expr} (left : Derives .disjunction ts l) (right : Derives .conjunction us r) :
      Derives .disjunction (ts ++ .or :: us) (.binary .or l r)
  | comparison {ts : List Token} {e : Expr} (only : Derives .comparison ts e) : Derives .conjunction ts e
  | and {ts us : List Token} {l r : Expr} (left : Derives .conjunction ts l) (right : Derives .comparison us r) :
      Derives .conjunction (ts ++ .and :: us) (.binary .and l r)
  | operand {ts : List Token} {e : Expr} (only : Derives .operand ts e) : Derives .comparison ts e
  | compared {ts us : List Token} {t : Token} {op : BinaryOp} {l r : Expr} (left : Derives .operand ts l)
      (sign : ComparisonSign t op) (right : Derives .operand us r) :
      Derives .comparison (ts ++ t :: us) (.binary op l r)
  | primary {ts : List Token} {e : Expr} (only : Derives .primary ts e) : Derives .operand ts e
  | not {ts : List Token} {e : Expr} (negated : Derives .operand ts e) : Derives .operand (.not :: ts) (.not e)
  | parentheses {ts : List Token} {e : Expr} (inner : Derives .disjunction ts e) :
      Derives .primary (.leftParen :: ts ++ [.rightParen]) e
  | string (s : String) : Derives .primary [.str s] (.literal (.str s))
  | number {text : String} {v : Value} (spelled : SpellsNumber text v) :
      Derives .primary [.number text] (.literal v)
  | literalWord {w : String} {v : Value} (literal : LiteralWord w v) : Derives .primary [.word w] (.literal v)
  /-- The call of a function of one text. -/
  | text {f : TextFunction} {ts : List Token} {a : Expr} (arg : Derives .disjunction ts a) :
      Derives .primary (.word f.name :: .leftParen :: ts ++ [.rightParen]) (.text f a)
  /-- The call of a test of one value against another. -/
  | test {f : TestFunction} {ts us : List Token} {a b : Expr} (subject : Derives .disjunction ts a)
      (object : Derives .disjunction us b) :
      Derives .primary (.word f.name :: .leftParen :: (ts ++ .comma :: us) ++ [.rightParen]) (.test f a b)
  | path {w : String} {ts : List Token} {p : Path} (root : ∀ v, ¬ LiteralWord w v) (tail : PathTail ts p) :
      Derives .primary (.word w :: ts) (.path (.field w :: p))

/-! ### What the reader takes for leaves -/

theorem takeSign_of_isDigit {c : Char} (hc : c.isDigit = true) (ds : List Char) :
    Decimal.takeSign (c :: ds) = (false, c :: ds) := by
  unfold Decimal.takeSign
  split
  · rename_i heq
    obtain ⟨rfl, rfl⟩ := List.cons.inj heq
    exact absurd hc (by decide)
  · rename_i heq
    obtain ⟨rfl, rfl⟩ := List.cons.inj heq
    exact absurd hc (by decide)
  · rfl

/-- The digits of an integer are what follows its sign. -/
theorem spellsInteger_iff {text : List Char} {n : Int} :
    SpellsInteger text n ↔ (Decimal.takeSign text).2 ≠ [] ∧ (∀ c ∈ (Decimal.takeSign text).2, c.isDigit = true) ∧
      (if (Decimal.takeSign text).1 then -(Decimal.digitsValue (Decimal.takeSign text).2 : Int)
        else Decimal.digitsValue (Decimal.takeSign text).2) = n := by
  constructor
  · intro h
    cases h with
    | plus some_digit digits => exact ⟨some_digit, digits, rfl⟩
    | minus some_digit digits => exact ⟨some_digit, digits, rfl⟩
    | plain some_digit digits =>
      obtain ⟨c, ds, rfl⟩ := List.exists_cons_of_ne_nil some_digit
      rw [takeSign_of_isDigit (digits c List.mem_cons_self)]
      exact ⟨some_digit, digits, rfl⟩
  · rintro ⟨some_digit, digits, rfl⟩
    generalize hsplit : Decimal.takeSign text = signed at some_digit digits
    unfold Decimal.takeSign at hsplit
    split at hsplit <;> subst hsplit
    · exact .minus some_digit digits
    · exact .plus some_digit digits
    · exact .plain some_digit digits

/-- A text spells one integer at most. -/
theorem SpellsInteger.eq {text : List Char} {m n : Int} (hm : SpellsInteger text m)
    (hn : SpellsInteger text n) : m = n :=
  (spellsInteger_iff.1 hm).2.2.symm.trans (spellsInteger_iff.1 hn).2.2

theorem isWord64_iff {n : Int} :
    IsWord64 n ↔ (-(UInt64.size / 2 : Int) ≤ n ∧ n < UInt64.size / 2) := by
  have hsize : (UInt64.size / 2 : Int) = 2 ^ 63 := by decide
  rw [hsize]
  rfl

/-- The test of the reader: a numeral of an integer of 64 bits. -/
theorem isInteger_iff {text : List Char} {n : Int}
    (hn : (if (Decimal.takeSign text).1 then -(Decimal.digitsValue (Decimal.takeSign text).2 : Int)
      else Decimal.digitsValue (Decimal.takeSign text).2) = n) :
    (!(Decimal.takeSign text).2.isEmpty && (Decimal.takeSign text).2.all Char.isDigit
      && -(UInt64.size / 2 : Int) ≤ n && n < UInt64.size / 2) = true ↔ SpellsInteger text n ∧ IsWord64 n := by
  rw [spellsInteger_iff, isWord64_iff]
  simp only [Bool.and_eq_true, Bool.not_eq_true', List.isEmpty_eq_false_iff, List.all_eq_true,
    decide_eq_true_eq, hn, and_true, and_assoc]

theorem numberValue?_eq_some_iff {text : String} {v : Value} :
    numberValue? text = some v ↔ SpellsNumber text v := by
  generalize hn : (if (Decimal.takeSign text.toList).1 then
    -(Decimal.digitsValue (Decimal.takeSign text.toList).2 : Int)
      else Decimal.digitsValue (Decimal.takeSign text.toList).2) = n
  have hinteger := isInteger_iff hn
  unfold numberValue?
  simp only [hn]
  split
  · rename_i htest
    obtain ⟨spelled, fits⟩ := hinteger.1 htest
    constructor
    · rintro ⟨⟩
      exact .integer spelled fits
    · rintro (⟨spelled', -⟩ | ⟨wide, -, -⟩)
      · rw [spelled.eq spelled']
      · exact absurd fits (wide n spelled)
  · rename_i htest
    have wide : ∀ m, SpellsInteger text.toList m → ¬ IsWord64 m := fun m spelled fits =>
      htest (hinteger.2 ⟨(spellsInteger_iff.1 spelled).2.2.symm.trans hn ▸ spelled, by
        rwa [← (spellsInteger_iff.1 spelled).2.2.symm.trans hn]⟩)
    simp only [Option.map_eq_some_iff, Option.bind_eq_some_iff, Number.ofFloat?]
    constructor
    · rintro ⟨a, ⟨x, read, hx⟩, rfl⟩
      split at hx
      · cases hx
        exact .float wide read ‹_›
      · cases hx
    · rintro (⟨spelled, fits⟩ | ⟨-, read, finite⟩)
      · exact absurd fits (wide _ spelled)
      · exact ⟨_, ⟨_, read, if_pos finite⟩, rfl⟩

/-- The digits of an index are what follows its plus sign, if it has one. -/
theorem readIndex?_eq (cs : List Char) :
    ∃ ds : List Char, (cs = ds ∧ cs.head? ≠ some '+' ∨ cs = '+' :: ds) ∧
      Path.readIndex? cs
        = if !ds.isEmpty && ds.all Char.isDigit && Decimal.digitsValue ds < UInt64.size then
            some (Decimal.digitsValue ds) else none := by
  by_cases hplus : cs.head? = some '+'
  · obtain ⟨ds, rfl⟩ := List.head?_eq_some_iff.1 hplus
    exact ⟨ds, .inr rfl, rfl⟩
  · refine ⟨cs, .inl ⟨rfl, hplus⟩, ?_⟩
    unfold Path.readIndex?
    split
    · exact absurd rfl hplus
    · rfl

theorem readIndex?_eq_some_iff {text : String} {n : Nat} :
    Path.readIndex? text.toList = some n ↔ SpellsIndex text n := by
  obtain ⟨ds, hds, hread⟩ := readIndex?_eq text.toList
  have htest : (!ds.isEmpty && ds.all Char.isDigit && Decimal.digitsValue ds < UInt64.size) = true
      ↔ ds ≠ [] ∧ (∀ c ∈ ds, c.isDigit = true) ∧ Decimal.digitsValue ds < 2 ^ 64 := by
    simp only [Bool.and_eq_true, Bool.not_eq_true', List.isEmpty_eq_false_iff, List.all_eq_true,
      decide_eq_true_eq, and_assoc, UInt64.size, Nat.reducePow]
  rw [hread, Option.ite_none_right_eq_some, htest, Option.some.injEq]
  constructor
  · rintro ⟨⟨some_digit, digits, fits⟩, rfl⟩
    exact ⟨ds, hds.imp_left And.left, some_digit, digits, rfl, fits⟩
  · rintro ⟨es, hes, some_digit, digits, rfl, fits⟩
    -- no digit is a plus sign, so both have cut off the same
    have hsame : ds = es := by
      rcases hds with ⟨rfl, hplus⟩ | hds
      · rcases hes with hes | hes
        · exact hes
        · exact absurd (hes ▸ rfl) hplus
      · rcases hes with hes | hes
        · exact absurd (digits '+' (hes ▸ hds ▸ List.mem_cons_self)) (by decide)
        · exact (List.cons.inj (hds.symm.trans hes)).2
    subst hsame
    exact ⟨⟨some_digit, digits, fits⟩, rfl⟩

theorem splitOn_append_cons {name : List Char} (h : '.' ∉ name) (rest : List Char) :
    Text.splitOn '.' (name ++ '.' :: rest) = name :: Text.splitOn '.' rest := by
  rw [Text.splitOn_append, Text.splitOn_of_not_mem h, List.singleton_append]

theorem dotted_splitOn (text : List Char) : Dotted text ((Text.splitOn '.' text).map String.ofList) := by
  induction text with
  | nil => exact .last List.not_mem_nil
  | cons c cs ih =>
    by_cases hc : c = '.'
    · subst hc
      simpa [Text.splitOn] using (Dotted.more List.not_mem_nil ih : Dotted ([] ++ '.' :: cs) _)
    · -- the first character joins the first of the names after it
      have hmem : ∀ {name : List Char}, '.' ∉ name → '.' ∉ c :: name := fun h hmem =>
        (List.mem_cons.1 hmem).elim (fun heq => hc heq.symm) h
      generalize hnames : (Text.splitOn '.' cs).map String.ofList = names at ih
      cases ih with
      | last no_point =>
        rw [Text.splitOn_of_not_mem (hmem no_point)]
        exact .last (hmem no_point)
      | more no_point others =>
        rw [splitOn_append_cons no_point, List.map_cons] at hnames
        obtain ⟨-, rfl⟩ := List.cons.inj hnames
        rw [← List.cons_append, splitOn_append_cons (hmem no_point)]
        exact .more (hmem no_point) others

theorem dotted_iff {text : List Char} {names : List String} :
    Dotted text names ↔ (Text.splitOn '.' text).map String.ofList = names := by
  constructor
  · intro h
    induction h with
    | last no_point => rw [Text.splitOn_of_not_mem no_point]; rfl
    | more no_point others ih => rw [splitOn_append_cons no_point, List.map_cons, ih]
  · rintro rfl
    exact dotted_splitOn text

theorem literalWord?_eq_some_iff {w : String} {v : Value} : literalWord? w = some v ↔ LiteralWord w v := by
  unfold literalWord?
  constructor
  · intro h
    split at h
    · cases h; subst w; exact .isTrue
    split at h
    · cases h; subst w; exact .isFalse
    split at h
    · cases h; subst w; exact .isNull
    · cases h
  · rintro (_ | _ | _) <;> rfl

theorem comparison?_eq_some_iff {t : Token} {op : BinaryOp} : comparison? t = some op ↔ ComparisonSign t op := by
  constructor
  · intro h
    unfold comparison? at h
    split at h <;> cases h <;> constructor
  · rintro (_ | _ | _ | _ | _ | _) <;> rfl

theorem function?_name_text (f : TextFunction) : function? f.name = some (.inl f) := by
  cases f <;> rfl

theorem function?_name_test (f : TestFunction) : function? f.name = some (.inr f) := by
  cases f <;> rfl

theorem name_of_function? {name : String} {f : TextFunction ⊕ TestFunction} (h : function? name = some f) :
    name = f.elim TextFunction.name TestFunction.name := by
  unfold function? at h
  repeat' split at h
  all_goals cases h
  all_goals assumption

end Groundwork.Guard
