import Groundwork.Proofs.Data.Outcome
import Groundwork.Proofs.Guard.Grammar

/-!
# What is read as a guard

The reader goes through the tokens once, from left to right, and never back.  Here it is set against the
grammar, which knows nothing of an order.  In one direction, whatever a reader takes off the front of a list of
tokens is a phrase of its kind.  In the other, a phrase is read in full if what follows it cannot belong to it;
a chain of operators, which the reader goes through from left to right and the grammar takes apart from right to
left, is read up to any point between its parts.

Main statement: tokens are read as an expression exactly if they are a disjunction with it as its tree
(`parseTokens_eq_ok_iff`).
-/

namespace Groundwork.Guard

/-! ### Reading is sound -/

/-- Whether a reader takes only phrases of this kind off the front. -/
def Sound (k : Phrase) (r : Reader Expr) : Prop :=
  ∀ ts e rest, r ts = .ok (e, rest) → ∃ front, ts = front ++ rest ∧ Derives k front e

theorem eq_of_expect {wanted : Token} {ts rest : List Token} (h : expect wanted ts = .ok rest) :
    ts = wanted :: rest := by
  cases ts with
  | nil => cases h
  | cons t ts =>
    simp only [expect] at h
    split at h
    · cases h; subst wanted; rfl
    · cases h

theorem sound_chainFrom {inner outer : Phrase} {sign : Token} {op : BinaryOp} {part : Reader Expr}
    (more : ∀ {ts us l r}, Derives outer ts l → Derives inner us r →
      Derives outer (ts ++ sign :: us) (.binary op l r)) (hpart : Sound inner part)
    {n : Nat} {read ts rest : List Token} {l e : Expr} (hl : Derives outer read l)
    (h : chainFrom sign op part n l ts = .ok (e, rest)) :
    ∃ front, ts = front ++ rest ∧ Derives outer (read ++ front) e := by
  induction n generalizing read ts l with
  | zero =>
    cases h
    exact ⟨[], rfl, by simpa using hl⟩
  | succ n ih =>
    cases ts with
    | nil =>
      cases h
      exact ⟨[], rfl, by simpa using hl⟩
    | cons t ts =>
      rw [chainFrom] at h
      split at h
      · subst t
        obtain ⟨⟨r, us⟩, hr, hrest⟩ := bind_eq_ok h
        obtain ⟨front, rfl, hfront⟩ := hpart _ _ _ hr
        obtain ⟨last, rfl, hlast⟩ := ih (more hl hfront) hrest
        exact ⟨sign :: front ++ last, by simp, by simpa using hlast⟩
      · cases h
        exact ⟨[], rfl, by simpa using hl⟩

theorem sound_chain {inner outer : Phrase} {sign : Token} {op : BinaryOp} {part : Reader Expr}
    (only : ∀ {ts e}, Derives inner ts e → Derives outer ts e)
    (more : ∀ {ts us l r}, Derives outer ts l → Derives inner us r →
      Derives outer (ts ++ sign :: us) (.binary op l r)) (hpart : Sound inner part) :
    Sound outer (chain sign op part) := by
  intro ts e rest h
  obtain ⟨⟨l, us⟩, hl, hrest⟩ := bind_eq_ok h
  obtain ⟨front, rfl, hfront⟩ := hpart _ _ _ hl
  obtain ⟨last, rfl, hlast⟩ := sound_chainFrom more hpart (only hfront) hrest
  exact ⟨front ++ last, by simp, hlast⟩

theorem sound_comparison {part : Reader Expr} (hpart : Sound .operand part) :
    Sound .comparison (comparison part) := by
  intro ts e rest h
  obtain ⟨⟨l, us⟩, hl, hrest⟩ := bind_eq_ok h
  obtain ⟨front, rfl, hfront⟩ := hpart _ _ _ hl
  cases us with
  | nil =>
    cases hrest
    exact ⟨front, rfl, .operand hfront⟩
  | cons t us =>
    simp only [List.head?_cons, Option.bind_some, List.drop_succ_cons, List.drop_zero] at hrest
    split at hrest
    · cases hrest
      exact ⟨front, rfl, .operand hfront⟩
    · rename_i op hop
      obtain ⟨⟨r, vs⟩, hr, hrest⟩ := bind_eq_ok hrest
      cases hrest
      obtain ⟨last, rfl, hlast⟩ := hpart _ _ _ hr
      exact ⟨front ++ t :: last, by simp, .compared hfront (comparison?_eq_some_iff.1 hop) hlast⟩

theorem sound_disjunction {part : Reader Expr} (hpart : Sound .operand part) :
    Sound .disjunction (disjunction part) :=
  sound_chain .conjunction .or (sound_chain .comparison .and (sound_comparison hpart))

theorem exists_of_pathSteps {ts rest : List Token} {p : Path} (h : pathSteps ts = .ok (p, rest)) :
    ∃ front, ts = front ++ rest ∧ PathTail front p := by
  fun_induction pathSteps ts generalizing p with
  | case1 name ts ih =>
    obtain ⟨⟨q, us⟩, hq, h⟩ := bind_eq_ok h
    cases h
    obtain ⟨front, rfl, hfront⟩ := ih hq
    exact ⟨.dot :: .word name :: front, rfl, .field hfront⟩
  | case2 text ts ih =>
    obtain ⟨⟨q, us⟩, hq, h⟩ := bind_eq_ok h
    cases h
    obtain ⟨front, rfl, hfront⟩ := ih hq
    refine ⟨.dot :: .number text :: front, rfl, ?_⟩
    have := PathTail.fields (dotted_splitOn text.toList) hfront
    rwa [List.map_map] at this
  | case3 | case4 | case6 | case7 | case9 | case10 => cases h
  | case5 text ts n hn ih =>
    obtain ⟨⟨q, us⟩, hq, h⟩ := bind_eq_ok h
    cases h
    obtain ⟨front, rfl, hfront⟩ := ih hq
    exact ⟨.leftBracket :: .number text :: .rightBracket :: front, rfl,
      .index (readIndex?_eq_some_iff.1 hn) hfront⟩
  | case8 name ts ih =>
    obtain ⟨⟨q, us⟩, hq, h⟩ := bind_eq_ok h
    cases h
    obtain ⟨front, rfl, hfront⟩ := ih hq
    exact ⟨.leftBracket :: .str name :: .rightBracket :: front, rfl, .quoted hfront⟩
  | case11 =>
    cases h
    exact ⟨[], rfl, .nil⟩

/-- Arguments of a call up to the closing parenthesis. -/
inductive Arguments : List Token → List Expr → Prop
  | last {ts : List Token} {a : Expr} (arg : Derives .disjunction ts a) : Arguments (ts ++ [.rightParen]) [a]
  | more {ts us : List Token} {a : Expr} {as : List Expr} (arg : Derives .disjunction ts a)
      (others : Arguments us as) : Arguments (ts ++ .comma :: us) (a :: as)

theorem exists_of_argumentsFrom {expr : Reader Expr} (hexpr : Sound .disjunction expr) {n : Nat}
    {ts rest : List Token} {args : List Expr} (h : argumentsFrom expr n ts = .ok (args, rest)) :
    ∃ front, ts = front ++ rest ∧ Arguments front args := by
  induction n generalizing ts args with
  | zero => cases h
  | succ n ih =>
    obtain ⟨⟨a, us⟩, ha, hrest⟩ := bind_eq_ok h
    obtain ⟨front, rfl, hfront⟩ := hexpr _ _ _ ha
    dsimp only at hrest
    split at hrest
    · cases hrest
      exact ⟨front ++ [.rightParen], by simp, .last hfront⟩
    · obtain ⟨vs, hcomma, hothers⟩ := bind_eq_ok hrest
      obtain ⟨⟨as, ws⟩, has, hdone⟩ := bind_eq_ok hothers
      cases hdone
      obtain rfl := eq_of_expect hcomma
      obtain ⟨last, rfl, hlast⟩ := ih has
      exact ⟨front ++ .comma :: last, by simp, .more hfront hlast⟩

/-- A call has as many arguments as its function wants. -/
theorem derives_of_makeCall {f : TextFunction ⊕ TestFunction} {front : List Token} {args : List Expr} {e : Expr}
    (hargs : Arguments front args) (h : makeCall (f.elim TextFunction.name TestFunction.name) f args = .ok e) :
    Derives .primary (.word (f.elim TextFunction.name TestFunction.name) :: .leftParen :: front) e := by
  unfold makeCall at h
  split at h
  · cases h
    cases hargs with
    | last arg => exact .text arg
    | more _ others => cases others
  · cases h
    cases hargs with
    | more subject others =>
      cases others with
      | last object => simpa using Derives.test subject object
      | more _ others => cases others
  · cases h
  · cases h

theorem sound_call {expr : Reader Expr} (hexpr : Sound .disjunction expr) {name : String}
    {ts rest : List Token} {e : Expr} (h : call expr name ts = .ok (e, rest)) :
    ∃ front, ts = front ++ rest ∧ Derives .primary (.word name :: .leftParen :: front) e := by
  unfold call at h
  split at h
  · cases h
  · rename_i f hf
    obtain ⟨⟨args, us⟩, hargs, h⟩ := bind_eq_ok h
    obtain ⟨e', he, h⟩ := bind_eq_ok h
    cases h
    obtain rfl := name_of_function? hf
    unfold arguments at hargs
    split at hargs
    · -- no function does without arguments
      cases hargs
      cases f <;> cases he
    · obtain ⟨front, rfl, hfront⟩ := exists_of_argumentsFrom hexpr hargs
      exact ⟨front, rfl, derives_of_makeCall hfront he⟩

theorem sound_primary {expr : Reader Expr} (hexpr : Sound .disjunction expr) :
    Sound .primary (primary expr) := by
  intro ts e rest h
  unfold primary at h
  split at h
  · obtain ⟨⟨e', us⟩, he, h⟩ := bind_eq_ok h
    obtain ⟨vs, hclose, h⟩ := bind_eq_ok h
    cases h
    obtain rfl := eq_of_expect hclose
    obtain ⟨front, rfl, hfront⟩ := hexpr _ _ _ he
    exact ⟨.leftParen :: front ++ [.rightParen], by simp, .parentheses hfront⟩
  · cases h
    exact ⟨[_], rfl, .string _⟩
  · split at h
    · cases h
      exact ⟨[_], rfl, .number (numberValue?_eq_some_iff.1 ‹_›)⟩
    · cases h
  · split at h
    · cases h
      exact ⟨[_], rfl, .literalWord (literalWord?_eq_some_iff.1 ‹_›)⟩
    · obtain ⟨front, rfl, hfront⟩ := sound_call hexpr h
      exact ⟨_ :: _ :: front, rfl, hfront⟩
    · rename_i hw _
      obtain ⟨⟨p, us⟩, hp, h⟩ := bind_eq_ok h
      cases h
      obtain ⟨front, rfl, hfront⟩ := exists_of_pathSteps hp
      refine ⟨_ :: front, rfl, .path (fun v hv => ?_) hfront⟩
      rw [literalWord?_eq_some_iff.2 hv] at hw
      cases hw
  · cases h

theorem operand_not (n : Nat) (ts : List Token) :
    operand (n + 1) (.not :: ts) = operand n ts >>= fun p => .ok (.not p.1, p.2) := rfl

theorem operand_of_head?_ne {ts : List Token} (h : ts.head? ≠ some .not) (n : Nat) :
    operand (n + 1) ts = primary (disjunction (operand n)) ts := by
  cases ts with
  | nil => rfl
  | cons t ts =>
    cases t with
    | not => exact absurd rfl h
    | _ => rfl

/-- **An operand is read from tokens that are one.** -/
theorem sound_operand (n : Nat) : Sound .operand (operand n) := by
  induction n with
  | zero => exact fun ts e rest h => by cases h
  | succ n ih =>
    intro ts e rest h
    by_cases hnot : ts.head? = some .not
    · obtain ⟨ts, rfl⟩ := List.head?_eq_some_iff.1 hnot
      rw [operand_not] at h
      obtain ⟨⟨e', us⟩, he, hdone⟩ := bind_eq_ok h
      cases hdone
      obtain ⟨front, rfl, hfront⟩ := ih _ _ _ he
      exact ⟨.not :: front, rfl, .not hfront⟩
    · rw [operand_of_head?_ne hnot] at h
      obtain ⟨front, rfl, hfront⟩ := sound_primary (sound_disjunction ih) _ _ _ h
      exact ⟨front, rfl, .primary hfront⟩

/-! ### Where a phrase ends and starts -/

/-- Whether a phrase of this kind could go on with a token. -/
def Phrase.goesOn (k : Phrase) : Token → Bool
  | .dot | .leftBracket | .leftParen => true
  | .eq | .ne | .lt | .le | .gt | .ge => k = .comparison || k = .conjunction || k = .disjunction
  | .and => k = .conjunction || k = .disjunction
  | .or => k = .disjunction
  | _ => false

/-- Whether a phrase of this kind ends before these tokens. -/
def Phrase.EndsBefore (k : Phrase) (ts : List Token) : Prop := ∀ t, ts.head? = some t → k.goesOn t = false

theorem endsBefore_nil (k : Phrase) : k.EndsBefore [] := fun _ h => nomatch h

theorem endsBefore_cons {k : Phrase} {t : Token} {ts : List Token} :
    k.EndsBefore (t :: ts) ↔ k.goesOn t = false := by
  simp [Phrase.EndsBefore]

theorem Phrase.EndsBefore.mono {k l : Phrase} (hkl : ∀ t, k.goesOn t = true → l.goesOn t = true)
    {ts : List Token} (h : l.EndsBefore ts) : k.EndsBefore ts := fun t ht =>
  Bool.eq_false_iff.2 fun hk => Bool.eq_false_iff.1 (h t ht) (hkl t hk)

theorem goesOn_operand {k : Phrase} {t : Token} (h : Phrase.operand.goesOn t = true) : k.goesOn t = true := by
  cases t <;> first | rfl | cases h

theorem goesOn_comparison {t : Token} (h : Phrase.comparison.goesOn t = true) :
    Phrase.conjunction.goesOn t = true := by
  cases t <;> first | rfl | cases h

theorem goesOn_conjunction {t : Token} (h : Phrase.conjunction.goesOn t = true) :
    Phrase.disjunction.goesOn t = true := by
  cases t <;> first | rfl | cases h

theorem goesOn_sign {t : Token} {op : BinaryOp} (h : ComparisonSign t op) :
    Phrase.operand.goesOn t = false ∧ Phrase.comparison.goesOn t = true := by
  cases h <;> exact ⟨rfl, rfl⟩

theorem comparison?_of_goesOn {t : Token} (h : Phrase.comparison.goesOn t = false) : comparison? t = none := by
  cases t <;> first | rfl | cases h

/-- The tokens with which a primary phrase starts. -/
def Token.Opens : Token → Prop
  | .leftParen | .word _ | .number _ | .str _ => True
  | _ => False

/-- A primary phrase starts with one of its tokens, and any other with one of those or a negation. -/
theorem Derives.exists_cons {k : Phrase} {ts : List Token} {e : Expr} (h : Derives k ts e) :
    ∃ t us, ts = t :: us ∧ (t.Opens ∨ t = .not ∧ k ≠ .primary) := by
  induction h with
  | conjunction only ih | comparison only ih | operand only ih | primary only ih =>
    obtain ⟨t, us, rfl, ht⟩ := ih
    exact ⟨t, us, rfl, ht.imp_right fun h => ⟨h.1, by decide⟩⟩
  | or left right ih _ | and left right ih _ | compared left sign right ih _ =>
    obtain ⟨t, us, rfl, ht⟩ := ih
    exact ⟨t, _, rfl, ht.imp_right fun h => ⟨h.1, by decide⟩⟩
  | not negated => exact ⟨_, _, rfl, .inr ⟨rfl, by decide⟩⟩
  | parentheses | string | number | literalWord | text | test | path => exact ⟨_, _, rfl, .inl trivial⟩

/-! ### Paths and arguments, read in full -/

/-- **A path is read to its end.** -/
theorem pathSteps_append {ts : List Token} {p : Path} (h : PathTail ts p) {rest : List Token}
    (hrest : Phrase.primary.EndsBefore rest) : pathSteps (ts ++ rest) = .ok (p, rest) := by
  induction h with
  | nil =>
    cases rest with
    | nil => rfl
    | cons t rest =>
      have ht := endsBefore_cons.1 hrest
      cases t <;> first | rfl | cases ht
  | field _ ih => simp [pathSteps, ih, bind, Except.bind]
  | fields dotted _ ih =>
    obtain rfl := dotted_iff.1 dotted
    simp [pathSteps, ih, bind, Except.bind, Function.comp_def]
  | index spelled _ ih => simp [pathSteps, readIndex?_eq_some_iff.2 spelled, ih, bind, Except.bind]
  | quoted _ ih => simp [pathSteps, ih, bind, Except.bind]

theorem argumentsFrom_last {expr : Reader Expr} {ts rest : List Token} {a : Expr}
    (h : expr ts = .ok (a, .rightParen :: rest)) (n : Nat) :
    argumentsFrom expr (n + 1) ts = .ok ([a], rest) := by
  simp [argumentsFrom, h, bind, Except.bind]

theorem argumentsFrom_more {expr : Reader Expr} {ts us : List Token} {a : Expr}
    (h : expr ts = .ok (a, .comma :: us)) (n : Nat) :
    argumentsFrom expr (n + 1) ts = argumentsFrom expr n us >>= fun p => .ok (a :: p.1, p.2) := by
  simp [argumentsFrom, h, expect, bind, Except.bind]

theorem arguments_of_exists_cons {expr : Reader Expr} {ts : List Token}
    (h : ∃ t us, ts = t :: us ∧ t ≠ .rightParen) : arguments expr ts = argumentsFrom expr (ts.length + 1) ts := by
  obtain ⟨t, us, rfl, ht⟩ := h
  cases t with
  | rightParen => exact absurd rfl ht
  | _ => rfl

/-! ### The readers of all kinds -/

/-- The reader of the phrases of a kind; `n` is how deep operands may be nested inside of an operand. -/
def readerOf (n : Nat) : Phrase → Reader Expr
  | .disjunction => disjunction (operand (n + 1))
  | .conjunction => chain .and .and (comparison (operand (n + 1)))
  | .comparison => comparison (operand (n + 1))
  | .operand => operand (n + 1)
  | .primary => primary (disjunction (operand n))

/-- Whether the reader of a kind gets through a phrase with an expression.  After a phrase that may grow at its
right end the reader has come to the point where it looks for one more operator, with the expression on its
left; after any other it is done. -/
def Through (n : Nat) (front : List Token) (e : Expr) : Phrase → Prop
  | .disjunction => ∀ rest, Phrase.conjunction.EndsBefore rest → ∃ m, rest.length ≤ m ∧
      readerOf n .disjunction (front ++ rest) = chainFrom .or .or (readerOf n .conjunction) m e rest
  | .conjunction => ∀ rest, Phrase.comparison.EndsBefore rest → ∃ m, rest.length ≤ m ∧
      readerOf n .conjunction (front ++ rest) = chainFrom .and .and (readerOf n .comparison) m e rest
  | .comparison => ∀ rest, Phrase.comparison.EndsBefore rest →
      readerOf n .comparison (front ++ rest) = .ok (e, rest)
  | .operand => ∀ rest, Phrase.operand.EndsBefore rest → readerOf n .operand (front ++ rest) = .ok (e, rest)
  | .primary => ∀ rest, Phrase.primary.EndsBefore rest → readerOf n .primary (front ++ rest) = .ok (e, rest)

theorem chainFrom_of_head?_ne {sign : Token} {ts : List Token} (h : ts.head? ≠ some sign) (op : BinaryOp)
    (part : Reader Expr) (m : Nat) (left : Expr) : chainFrom sign op part m left ts = .ok (left, ts) := by
  cases m with
  | zero => rfl
  | succ m =>
    cases ts with
    | nil => rfl
    | cons t ts => exact if_neg fun heq => h (by rw [heq]; rfl)

theorem head?_ne_of_endsBefore {k : Phrase} {sign : Token} (hsign : k.goesOn sign = true) {ts : List Token}
    (h : k.EndsBefore ts) : ts.head? ≠ some sign := fun hhead => by
  rw [h sign hhead] at hsign
  cases hsign

/-- A phrase that nothing can prolong is read whole. -/
theorem Through.eq_ok {n : Nat} {k : Phrase} {front rest : List Token} {e : Expr} (h : Through n front e k)
    (hrest : k.EndsBefore rest) : readerOf n k (front ++ rest) = .ok (e, rest) := by
  cases k with
  | disjunction =>
    obtain ⟨m, -, hm⟩ := h rest (hrest.mono fun _ => goesOn_conjunction)
    rw [hm, chainFrom_of_head?_ne (head?_ne_of_endsBefore rfl hrest)]
  | conjunction =>
    obtain ⟨m, -, hm⟩ := h rest (hrest.mono fun _ => goesOn_comparison)
    rw [hm, chainFrom_of_head?_ne (head?_ne_of_endsBefore rfl hrest)]
  | comparison => exact h rest hrest
  | operand => exact h rest hrest
  | primary => exact h rest hrest

/-- The first part of a chain, read. -/
theorem chain_of_eq_ok {sign : Token} {op : BinaryOp} {part : Reader Expr} {ts rest : List Token} {e : Expr}
    (h : part ts = .ok (e, rest)) : chain sign op part ts = chainFrom sign op part rest.length e rest := by
  simp [chain, h, bind, Except.bind]

/-- One more part of a chain, read. -/
theorem chainFrom_of_eq_ok {sign : Token} {op : BinaryOp} {part : Reader Expr} {ts rest : List Token}
    {l r : Expr} (h : part ts = .ok (r, rest)) (m : Nat) :
    chainFrom sign op part (m + 1) l (sign :: ts) = chainFrom sign op part m (.binary op l r) rest := by
  simp [chainFrom, h, bind, Except.bind]

/-- A chain that is read as far as an operator is read as far as the end of the part after it. -/
theorem exists_chainFrom {sign : Token} {op : BinaryOp} {part : Reader Expr} {ts rest : List Token} {l r : Expr}
    {read : Except SyntaxFault (Expr × List Token)}
    (hread : ∃ m, (sign :: ts).length ≤ m ∧ read = chainFrom sign op part m l (sign :: ts))
    (hpart : part ts = .ok (r, rest)) (hle : rest.length ≤ ts.length) :
    ∃ m, rest.length ≤ m ∧ read = chainFrom sign op part m (.binary op l r) rest := by
  obtain ⟨m, hm, rfl⟩ := hread
  rw [List.length_cons] at hm
  obtain ⟨m, rfl⟩ := Nat.exists_eq_add_one_of_ne_zero (by omega : m ≠ 0)
  exact ⟨m, by omega, chainFrom_of_eq_ok hpart m⟩

theorem comparison_only {part : Reader Expr} {ts rest : List Token} {e : Expr} (h : part ts = .ok (e, rest))
    (hrest : Phrase.comparison.EndsBefore rest) : comparison part ts = .ok (e, rest) := by
  have hnone : rest.head?.bind comparison? = none := by
    cases rest with
    | nil => rfl
    | cons t rest => exact comparison?_of_goesOn (endsBefore_cons.1 hrest)
  simp [comparison, h, hnone, bind, Except.bind]

theorem comparison_two {part : Reader Expr} {ts us rest : List Token} {t : Token} {op : BinaryOp} {l r : Expr}
    (hl : part ts = .ok (l, t :: us)) (ht : ComparisonSign t op) (hr : part us = .ok (r, rest)) :
    comparison part ts = .ok (.binary op l r, rest) := by
  simp [comparison, hl, comparison?_eq_some_iff.2 ht, hr, bind, Except.bind]

/-- The name of a function is no literal word. -/
theorem literalWord?_name (f : TextFunction ⊕ TestFunction) :
    literalWord? (f.elim TextFunction.name TestFunction.name) = none := by
  rcases f with f | f <;> cases f <;> decide

/-- A call whose arguments are read is read. -/
theorem primary_call {expr : Reader Expr} {f : TextFunction ⊕ TestFunction} {ts rest : List Token}
    {args : List Expr} {e : Expr} (hargs : arguments expr ts = .ok (args, rest))
    (he : makeCall (f.elim TextFunction.name TestFunction.name) f args = .ok e) :
    primary expr (.word (f.elim TextFunction.name TestFunction.name) :: .leftParen :: ts) = .ok (e, rest) := by
  have hf : function? (f.elim TextFunction.name TestFunction.name) = some f := by
    cases f with
    | inl f => exact function?_name_text f
    | inr f => exact function?_name_test f
  simp [primary, literalWord?_name, call, hf, hargs, he, bind, Except.bind]

theorem primary_path {expr : Reader Expr} {w : String} (hw : literalWord? w = none) {ts rest : List Token}
    {p : Path} (hp : pathSteps ts = .ok (p, rest)) (hts : ts.head? ≠ some .leftParen) :
    primary expr (.word w :: ts) = .ok (.path (.field w :: p), rest) := by
  unfold primary
  split <;> rename_i heq
  · cases heq
  · cases heq
  · cases heq
  · cases heq
    split
    · rename_i hsome
      rw [hw] at hsome
      cases hsome
    · exact absurd rfl hts
    · simp [hp, bind, Except.bind]
  · exact absurd rfl (heq _ _)

/-! ### Reading is complete -/

theorem endsBefore_rightParen (k : Phrase) (rest : List Token) : k.EndsBefore (.rightParen :: rest) :=
  endsBefore_cons.2 rfl

theorem endsBefore_comma (k : Phrase) (rest : List Token) : k.EndsBefore (.comma :: rest) :=
  endsBefore_cons.2 rfl

/-- No disjunction starts with a closing parenthesis, so the arguments of a call that has some are read one by
one. -/
theorem Derives.arguments_eq {k : Phrase} {ts : List Token} {e : Expr} (h : Derives k ts e) (expr : Reader Expr)
    (us : List Token) :
    arguments expr (ts ++ us) = argumentsFrom expr ((ts ++ us).length + 1) (ts ++ us) := by
  obtain ⟨t, ts', rfl, ht⟩ := h.exists_cons
  refine arguments_of_exists_cons ⟨t, ts' ++ us, rfl, ?_⟩
  rintro rfl
  rcases ht with ht | ⟨ht, -⟩ <;> cases ht

/-- The tokens of a path's steps start with a point or a bracket. -/
theorem PathTail.head?_ne {ts : List Token} {p : Path} (h : PathTail ts p) {rest : List Token}
    (hrest : Phrase.primary.EndsBefore rest) : (ts ++ rest).head? ≠ some .leftParen := by
  cases h with
  | nil => exact head?_ne_of_endsBefore rfl hrest
  | field | fields | index | quoted => exact fun heq => by cases heq

/-- **A phrase is read**, if the nesting that the reader allows is no less than the number of its tokens. -/
theorem through_of_derives {k : Phrase} {front : List Token} {e : Expr} (h : Derives k front e) :
    ∀ n, front.length ≤ n → Through n front e k := by
  induction h with
  | conjunction only ih =>
    exact fun n hn rest hrest => ⟨rest.length, Nat.le_refl _, chain_of_eq_ok ((ih n hn).eq_ok hrest)⟩
  | comparison only ih =>
    exact fun n hn rest hrest => ⟨rest.length, Nat.le_refl _, chain_of_eq_ok ((ih n hn).eq_ok hrest)⟩
  | @or ts us l r left right ihl ihr =>
    intro n hn rest hrest
    simp only [List.length_append, List.length_cons] at hn
    rw [List.append_assoc]
    exact exists_chainFrom (ihl n (by omega) (.or :: us ++ rest) (endsBefore_cons.2 rfl))
      ((ihr n (by omega)).eq_ok hrest) (by simp)
  | @and ts us l r left right ihl ihr =>
    intro n hn rest hrest
    simp only [List.length_append, List.length_cons] at hn
    rw [List.append_assoc]
    exact exists_chainFrom (ihl n (by omega) (.and :: us ++ rest) (endsBefore_cons.2 rfl))
      ((ihr n (by omega)).eq_ok hrest) (by simp)
  | operand only ih =>
    exact fun n hn rest hrest =>
      comparison_only (ih n hn rest (hrest.mono fun _ => goesOn_operand)) hrest
  | @compared ts us t op l r left sign right ihl ihr =>
    intro n hn rest hrest
    simp only [List.length_append, List.length_cons] at hn
    have hl := ihl n (by omega) (t :: us ++ rest) (endsBefore_cons.2 (goesOn_sign sign).1)
    have hr := ihr n (by omega) rest (hrest.mono fun _ => goesOn_operand)
    rw [List.append_assoc]
    exact comparison_two hl sign hr
  | @primary ts e only ih =>
    intro n hn rest hrest
    have hhead : (ts ++ rest).head? ≠ some .not := by
      obtain ⟨t, ts, rfl, ht | ⟨-, ht⟩⟩ := only.exists_cons
      · rintro ⟨⟩
        cases ht
      · exact absurd rfl ht
    exact (operand_of_head?_ne hhead n).trans (ih n hn rest hrest)
  | not negated ih =>
    intro n hn rest hrest
    obtain ⟨n, rfl⟩ := Nat.exists_eq_add_one_of_ne_zero (Nat.ne_zero_of_lt hn)
    have hread := ih n (Nat.le_of_succ_le_succ hn) rest hrest
    change operand (n + 1) _ = _ at hread
    change operand (n + 1 + 1) _ = _
    rw [List.cons_append, operand_not, hread]
    rfl
  | @parentheses ts e inner ih =>
    intro n hn rest _
    simp only [List.length_append, List.length_cons] at hn
    obtain ⟨n, rfl⟩ := Nat.exists_eq_add_one_of_ne_zero (by omega : n ≠ 0)
    have hread : disjunction (operand (n + 1)) (ts ++ .rightParen :: rest) = .ok (e, .rightParen :: rest) :=
      (ih n (by omega)).eq_ok (endsBefore_rightParen _ rest)
    simp [readerOf, primary, hread, expect, bind, Except.bind]
  | string s => exact fun n _ rest _ => rfl
  | number spelled =>
    intro n _ rest _
    simp [readerOf, primary, numberValue?_eq_some_iff.2 spelled]
  | literalWord literal =>
    intro n _ rest _
    simp [readerOf, primary, literalWord?_eq_some_iff.2 literal]
  | @text f ts a arg ih =>
    intro n hn rest _
    simp only [List.length_append, List.length_cons] at hn
    obtain ⟨n, rfl⟩ := Nat.exists_eq_add_one_of_ne_zero (by omega : n ≠ 0)
    have hread : disjunction (operand (n + 1)) (ts ++ .rightParen :: rest) = .ok (a, .rightParen :: rest) :=
      (ih n (by omega)).eq_ok (endsBefore_rightParen _ rest)
    have hargs := (arg.arguments_eq (disjunction (operand (n + 1))) (.rightParen :: rest)).trans
      (argumentsFrom_last hread _)
    rw [List.append_assoc]
    exact primary_call hargs (f := .inl f) rfl
  | @test f ts us a b subject object iha ihb =>
    intro n hn rest _
    simp only [List.length_append, List.length_cons] at hn
    obtain ⟨n, rfl⟩ := Nat.exists_eq_add_one_of_ne_zero (by omega : n ≠ 0)
    have ha : disjunction (operand (n + 1)) (ts ++ .comma :: (us ++ .rightParen :: rest))
        = .ok (a, .comma :: (us ++ .rightParen :: rest)) :=
      (iha n (by omega)).eq_ok (endsBefore_comma _ _)
    have hb : disjunction (operand (n + 1)) (us ++ .rightParen :: rest) = .ok (b, .rightParen :: rest) :=
      (ihb n (by omega)).eq_ok (endsBefore_rightParen _ rest)
    have hargs := subject.arguments_eq (disjunction (operand (n + 1))) (.comma :: (us ++ .rightParen :: rest))
    rw [argumentsFrom_more ha, List.length_append, List.length_cons, ← Nat.add_assoc, argumentsFrom_last hb] at hargs
    simp only [List.append_assoc, List.cons_append, List.nil_append] at hargs ⊢
    exact primary_call hargs (f := .inr f) rfl
  | path root tail =>
    intro n _ rest hrest
    have hw : literalWord? _ = none := Option.eq_none_iff_forall_ne_some.2 fun v hv =>
      root v (literalWord?_eq_some_iff.1 hv)
    exact primary_path hw (pathSteps_append tail hrest) (tail.head?_ne hrest)

/-- **What is a guard.**  Tokens are read as an expression exactly if they are a disjunction with that expression
as its tree. -/
theorem parseTokens_eq_ok_iff {ts : List Token} {e : Expr} : parseTokens ts = .ok e ↔ Derives .disjunction ts e := by
  constructor
  · intro h
    obtain ⟨⟨e', rest⟩, hread, hend⟩ := bind_eq_ok h
    cases rest with
    | cons t rest => cases hend
    | nil =>
      cases hend
      obtain ⟨front, hts, hfront⟩ := sound_disjunction (sound_operand _) _ _ _ hread
      rwa [hts, List.append_nil]
  · intro h
    have hread := (through_of_derives h ts.length (Nat.le_refl _)).eq_ok (endsBefore_nil .disjunction)
    rw [List.append_nil] at hread
    have hexpr : expression ts = .ok (e, []) := hread
    simp [parseTokens, hexpr, bind, Except.bind]

/-- Comparisons are not chained. -/
example : parseTokens [.word "a", .lt, .word "b", .lt, .word "c"] = .error (.trailing .lt) := rfl

end Groundwork.Guard
