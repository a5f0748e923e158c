import Groundwork.Proofs.Template.Tidy
import Mathlib.Data.List.Forall2

/-!
# Texts that leave what follows alone

A text is settled if nothing in it is open at its end: no opener that still looks for the end of its token, and
no dollar sign that would make the next opener literal.  What is written after a settled text is read there as it
is read alone, and a settled text is the only kind of which this is true.

So a text whose tokens give way to settled texts, or to tokens that are written anew, is read in the pieces that
were put together.  There is one exception: a token that holds the end of a token ends there when it is written in
canonical form.

Main statements: settled texts are those that leave what follows alone (`settled_iff`), a text with replaced
tokens has the tokens that were put in exactly if these are whole (`expressions_written_iff`), and so has a value
whose tokens are rewritten (`visitExpressions_rewritten_iff`).
-/

namespace Groundwork

/-! ### Parts of texts -/

namespace Text

/-- A text contains another if it is that with more before and after it. -/
theorem contains_iff {part s : List Char} : contains part s = true ↔ part <:+: s := by
  constructor
  · intro h
    obtain ⟨⟨a, b⟩, hcut⟩ := Option.isSome_iff_exists.1 h
    exact ⟨a, b, (cut_eq hcut).symm⟩
  · rintro ⟨a, b, rfl⟩
    induction a with
    | nil =>
      rw [List.nil_append]
      cases hpart : part ++ b with
      | nil =>
        rw [(List.append_eq_nil_iff.1 hpart).1]
        rfl
      | cons c s => rw [contains_cons, ← hpart, dropStart_append_self, Option.isSome_some, Bool.true_or]
    | cons c a ih => rw [List.cons_append, List.cons_append, contains_cons, ih, Bool.or_true]

/-- There is no separator before the first one. -/
theorem contains_of_cut {p : Char} {sep s a b : List Char} (h : cut (p :: sep) s = some (a, b)) :
    contains (p :: sep) a = false := by
  induction s generalizing a with
  | nil => cases h
  | cons c s ih =>
    unfold cut at h
    cases hstart : dropStart (p :: sep) (c :: s) with
    | some rest =>
      rw [hstart] at h
      cases h
      rfl
    | none =>
      rw [hstart] at h
      obtain ⟨⟨a', b'⟩, hcut, hparts⟩ := Option.map_eq_some_iff.1 h
      cases hparts
      -- a separator at the front would be at the front of the whole text too
      have hfront : dropStart (p :: sep) (c :: a') = none := by
        rw [Option.eq_none_iff_forall_ne_some]
        intro r hr
        have hlonger := dropStart_append hr (p :: sep ++ b')
        rw [List.cons_append, ← List.append_assoc, ← cut_eq hcut, hstart] at hlonger
        cases hlonger
      rw [contains_cons, hfront, ih hcut]
      rfl

theorem trim_isInfix (s : List Char) : trim s <:+: s :=
  (trimEnd_isPrefix _).isInfix.trans (List.dropWhile_suffix isBlank).isInfix

theorem mem_trim {s : List Char} {c : Char} (hc : c ∈ s) (hblank : isBlank c = false) : c ∈ trim s := by
  have hmem : ∀ {t : List Char}, c ∈ t → c ∈ t.dropWhile isBlank := by
    intro t ht
    rw [← List.takeWhile_append_dropWhile (p := isBlank) (l := t)] at ht
    refine (List.mem_append.1 ht).resolve_left fun hmem => ?_
    rw [List.all_eq_true.1 List.all_takeWhile c hmem] at hblank
    cases hblank
  exact List.mem_reverse.2 (hmem (List.mem_reverse.2 (hmem hc)))

/-- Where a pair of characters is found only with more text, a first character of that text that is none of the
pair comes before it. -/
theorem mem_of_cut_append {a b c : Char} {s t x y : List Char} (hca : c ≠ a) (hcb : c ≠ b)
    (hnone : cut [a, b] s = none) (h : cut [a, b] (s ++ c :: t) = some (x, y)) : c ∈ x := by
  induction s generalizing x with
  | nil =>
    rw [List.nil_append, cut, show dropStart [a, b] (c :: t) = none from if_neg (Ne.symm hca)] at h
    obtain ⟨p, -, hparts⟩ := Option.map_eq_some_iff.1 h
    cases hparts
    exact List.mem_cons_self
  | cons d s ih =>
    unfold cut at hnone
    cases hstart : dropStart [a, b] (d :: s) with
    | some rest =>
      rw [hstart] at hnone
      cases hnone
    | none =>
      rw [hstart] at hnone
      have hlater : dropStart [a, b] (d :: (s ++ c :: t)) = none := by
        cases s with
        | nil =>
          rw [List.nil_append, dropStart, dropStart, if_neg (Ne.symm hcb), ite_self]
        | cons d' s => simpa [dropStart] using hstart
      rw [List.cons_append, cut, hlater] at h
      obtain ⟨p, hcut, hparts⟩ := Option.map_eq_some_iff.1 h
      cases hparts
      exact List.mem_cons_of_mem d (ih (Option.map_eq_none_iff.1 hnone) hcut)

end Text

namespace Template

/-! ### Adjacent pieces -/

/-- Segments with adjacent literal pieces joined, after some literal characters in reverse. -/
def gather : List Char → List Segment → List Segment
  | text, [] => flush text
  | text, .text s :: l => gather (s.toList.reverse ++ text) l
  | text, .expr e :: l => flush text ++ .expr e :: gather [] l

theorem gather_flush (text u : List Char) (l : List Segment) :
    gather text (flush u ++ l) = gather (u ++ text) l := by
  unfold flush
  cases u with
  | nil => rfl
  | cons c u => simp [gather]

theorem gather_gather (text u : List Char) (l : List Segment) :
    gather text (gather u l) = gather (u ++ text) l := by
  induction l generalizing text u with
  | nil => rw [gather, gather, ← List.append_nil (flush u), gather_flush, gather]
  | cons x l ih =>
    cases x with
    | text s => rw [gather, gather, ih, List.append_assoc]
    | expr e => rw [gather, gather_flush, gather, gather, ih, List.append_nil]

theorem expressions_gather (text : List Char) (l : List Segment) :
    expressions (gather text l) = expressions l := by
  induction l generalizing text with
  | nil => exact expressions_flush text
  | cons x l ih =>
    cases x with
    | text s => rw [gather, ih, expressions]
    | expr e => rw [gather, expressions_append, expressions_flush, List.nil_append, expressions, expressions, ih]

theorem gather_flush_self (text u : List Char) : gather text (flush u) = flush (u ++ text) := by
  rw [← List.append_nil (flush u), gather_flush, gather]

/-- Literal characters read before are joined to the first literal piece. -/
theorem scan_append_text (text u : List Char) (dollar : Bool) (s : List Char) :
    scan (u ++ text) dollar s = gather text (scan u dollar s) := by
  fun_induction scan u dollar s generalizing text with
  | case1 u dollar => rw [scan, gather_flush_self]
  | case2 u dollar c => rw [scan, gather_flush_self, List.cons_append]
  | case3 u c d cs hopen ih => rw [scan, if_pos hopen, if_pos rfl, ← ih, List.cons_append, List.cons_append]
  | case4 u dollar c d cs hopen hdollar e rest htake ih =>
    obtain ⟨rfl, rfl⟩ := hopen
    rw [Bool.not_eq_true] at hdollar
    subst hdollar
    have hrest : scan [] false rest = gather [] (scan [] false rest) := ih []
    rw [scan_token _ htake, gather_flush, gather, ← hrest]
  | case5 u dollar c d cs hopen hdollar htake =>
    obtain ⟨rfl, rfl⟩ := hopen
    rw [Bool.not_eq_true] at hdollar
    subst hdollar
    rw [scan_unclosed _ htake, gather_flush_self, List.append_assoc, List.cons_append, List.cons_append]
  | case6 u dollar c d cs hopen ih => rw [scan, if_neg hopen, ← ih, List.cons_append]

theorem scan_eq_gather (text : List Char) (dollar : Bool) (s : List Char) :
    scan text dollar s = gather text (scan [] dollar s) := scan_append_text text [] dollar s

/-- Literal characters read before do not matter for the tokens. -/
theorem expressions_scan_eq (text : List Char) (dollar : Bool) (s : List Char) :
    expressions (scan text dollar s) = expressions (scan [] dollar s) := by
  rw [scan_eq_gather, expressions_gather]

/-! ### Settled texts -/

/-- Whether nothing in a text is open at its end, if `dollar` tells whether the character before it is a dollar sign
that may escape an opener. -/
def settles (dollar : Bool) : List Char → Bool
  | [] => !dollar
  | [c] => c != '$'
  | c :: d :: cs =>
      if c = '$' ∧ d = '\x7b' then
        if dollar then settles false cs
        else match _h : takeToken cs with
          | some (_, rest) => settles false rest
          | none => false
      else settles (c = '$') (d :: cs)
termination_by s => s.length
decreasing_by
  · simp only [List.length_cons]; omega
  · have := takeToken_length _h
    simp only [List.length_cons]
    omega
  · simp only [List.length_cons]; omega

/-- Whether nothing in a text is open at its end. -/
def Settled (s : String) : Prop := settles false s.toList = true

instance : DecidablePred Settled := fun _ => inferInstanceAs (Decidable (_ = true))

theorem settled_of_not_mem {s : String} (h : '$' ∉ s.toList) : Settled s := by
  rw [Settled]
  generalize s.toList = cs at h
  induction cs with
  | nil => rw [settles, Bool.not_false]
  | cons c cs ih =>
    rw [List.mem_cons, not_or] at h
    have hc : c ≠ '$' := Ne.symm h.1
    cases cs with
    | nil => simpa [settles] using hc
    | cons d cs =>
      rw [settles, if_neg fun hopen => hc hopen.1, decide_eq_false hc]
      exact ih h.2

/-- **What follows a settled text is read as it is read alone.** -/
theorem scan_append_of_settles {dollar : Bool} {s : List Char} (h : settles dollar s = true)
    (text t : List Char) :
    scan text dollar (s ++ t) = gather [] (scan text dollar s ++ scan [] false t) := by
  fun_induction settles dollar s generalizing text with
  | case1 dollar =>
    have hdollar : dollar = false := by simpa using h
    rw [hdollar, scan, gather_flush, List.append_nil, List.nil_append, scan_eq_gather]
  | case2 dollar c =>
    have hc : c ≠ '$' := by simpa using h
    have hstep : scan text dollar (c :: t) = scan (c :: text) false t := by
      cases t with
      | nil => rw [scan, scan]
      | cons d t => rw [scan, if_neg fun hopen => hc hopen.1, decide_eq_false hc]
    rw [List.singleton_append, hstep, scan, gather_flush, List.append_nil, scan_eq_gather]
  | case3 c d cs hopen ih =>
    rw [List.cons_append, List.cons_append, scan, if_pos hopen, if_pos rfl, ih h, scan, if_pos hopen, if_pos rfl]
  | case4 dollar c d cs hopen hdollar e rest htake ih =>
    obtain ⟨rfl, rfl⟩ := hopen
    rw [Bool.not_eq_true] at hdollar
    subst hdollar
    rw [List.cons_append, List.cons_append, scan_token text (takeToken_append htake t), scan_token text htake,
      ih h, List.append_assoc, gather_flush, List.append_nil, List.cons_append, gather]
  | case5 dollar c d cs hopen hdollar htake => cases h
  | case6 dollar c d cs hopen ih =>
    rw [List.cons_append, List.cons_append, scan, if_neg hopen, ← List.cons_append, ih h, scan, if_neg hopen]

/-- A text without tokens is one literal piece. -/
theorem scan_of_expressions_eq_nil {text : List Char} {dollar : Bool} {s : List Char}
    (h : expressions (scan text dollar s) = []) : scan text dollar s = flush (s.reverse ++ text) := by
  fun_induction scan text dollar s with
  | case1 text dollar => rfl
  | case2 text dollar c => rfl
  | case3 text c d cs hopen ih =>
    rw [ih h]
    simp
  | case4 text dollar c d cs hopen hdollar e rest htake ih =>
    rw [expressions_append, expressions_flush] at h
    cases h
  | case5 text dollar c d cs hopen hdollar htake => simp
  | case6 text dollar c d cs hopen ih =>
    rw [ih h]
    simp

/-- Where the brace that closes a token is found only with more text that starts with a dollar sign, that comes
before it. -/
theorem mem_of_takeBraced_append {t : List Char} : ∀ (s : List Char) (depth : Nat) (q : Option Char), Quoting q →
    (takeBraced depth q s = none →
      ∀ a b, takeBraced depth q (s ++ '$' :: t) = some (a, b) → '$' ∈ a) ∧
      (takeEscaped depth q s = none →
        ∀ a b, takeEscaped depth q (s ++ '$' :: t) = some (a, b) → '$' ∈ a) := by
  have hfirst : ∀ {x : Option (List Char × List Char)} {a b : List Char},
      prepend ['$'] x = some (a, b) → '$' ∈ a := by
    intro x a b h
    obtain ⟨a', -, rfl⟩ := prepend_eq_some h
    exact List.mem_cons_self
  intro s
  induction s with
  | nil =>
    intro depth q hq
    refine ⟨fun _ a b h => ?_, fun _ a b h => hfirst h⟩
    cases q with
    | none => exact hfirst (by simpa [takeBraced_none] using h)
    | some x => exact hfirst (by rwa [List.nil_append, takeBraced_some depth (by decide)] at h)
  | cons c s ih =>
    intro depth q hq
    have hnone : ∀ {x : Option (List Char × List Char)}, prepend [c] x = none → x = none :=
      fun h => Option.map_eq_none_iff.1 h
    constructor
    · intro hshort a b h
      rw [List.cons_append] at h
      rcases takeBraced_cons depth hq c with hend | ⟨depth', q', hq', hstep⟩ | hescape
      · rw [hend] at hshort
        cases hshort
      · rw [hstep] at hshort h
        obtain ⟨a', ha', rfl⟩ := prepend_eq_some h
        exact List.mem_cons_of_mem c ((ih depth' q' hq').1 (hnone hshort) a' b ha')
      · rw [hescape] at hshort h
        obtain ⟨a', ha', rfl⟩ := prepend_eq_some h
        exact List.mem_cons_of_mem c ((ih depth q hq).2 (hnone hshort) a' b ha')
    · intro hshort a b h
      obtain ⟨a', ha', rfl⟩ := prepend_eq_some (w := [c]) h
      exact List.mem_cons_of_mem c ((ih depth q hq).1 (hnone hshort) a' b ha')

/-- The same for a token of either form. -/
theorem mem_of_takeToken_append {s t e rest : List Char} (hnone : takeToken s = none)
    (h : takeToken (s ++ '$' :: t) = some (e, rest)) : '$' ∈ e := by
  by_cases hopen : s.head? = some '\x7b'
  · obtain ⟨s', rfl⟩ := List.head?_eq_some_iff.1 hopen
    exact Text.mem_of_cut_append (by decide) (by decide) hnone h
  · have hlonger : (s ++ '$' :: t).head? ≠ some '\x7b' := by
      cases s with
      | nil => exact fun h => absurd (Option.some.inj h) (by decide)
      | cons c s => exact hopen
    rw [takeToken_of_head hlonger] at h
    rw [takeToken_of_head hopen] at hnone
    exact (mem_of_takeBraced_append s 0 none quoting_none).1 hnone e rest h

/-- A text is settled if a token right after it is read. -/
theorem settles_of_expressions {text : List Char} {dollar : Bool} {s : List Char}
    (h : expressions (scan text dollar (s ++ (renderToken "b").toList))
      = expressions (scan text dollar s) ++ ["b"]) : settles dollar s = true := by
  have hescaped : ∀ u : List Char, expressions (scan u true (renderToken "b").toList) = [] := by
    intro u
    have hchars : (renderToken "b").toList = '$' :: '\x7b' :: ['\x7b', ' ', 'b', ' ', '\x7d', '\x7d'] := by
      decide
    rw [hchars, expressions_scan_escaped]
    exact (Reads.of_not_mem (by decide)).expressions_scan _
  fun_induction settles dollar s generalizing text with
  | case1 dollar =>
    cases dollar with
    | false => rfl
    | true =>
      rw [List.nil_append, hescaped, scan, expressions_flush] at h
      cases h
  | case2 dollar c =>
    by_cases hc : c = '$'
    · subst hc
      rw [List.singleton_append, expressions_scan_cons _ _ (by decide), decide_eq_true rfl, hescaped, scan,
        expressions_flush] at h
      cases h
    · simpa using hc
  | case3 c d cs hopen ih =>
    rw [List.cons_append, List.cons_append, scan, if_pos hopen, if_pos rfl, scan, if_pos hopen, if_pos rfl] at h
    exact ih h
  | case4 dollar c d cs hopen hdollar e rest htake ih =>
    obtain ⟨rfl, rfl⟩ := hopen
    rw [Bool.not_eq_true] at hdollar
    subst hdollar
    rw [List.cons_append, List.cons_append, expressions_scan_opener, expressions_scan_opener, htake,
      takeToken_append htake] at h
    exact ih (List.cons.inj h).2
  | case5 dollar c d cs hopen hdollar htake =>
    obtain ⟨rfl, rfl⟩ := hopen
    rw [Bool.not_eq_true] at hdollar
    subst hdollar
    rw [List.cons_append, List.cons_append, expressions_scan_opener, expressions_scan_opener, htake] at h
    -- what the opener takes in now has the dollar sign of the token in it
    cases hlonger : takeToken (cs ++ (renderToken "b").toList) with
    | none =>
      rw [hlonger] at h
      cases h
    | some p =>
      rw [hlonger] at h
      have hdollar : '$' ∈ Text.trim p.1 :=
        Text.mem_trim (mem_of_takeToken_append htake hlonger) (by decide)
      have hb : Text.trim p.1 = ['b'] := by
        rw [← String.toList_ofList (l := Text.trim p.1), (List.cons.inj h).1]
        rfl
      rw [hb] at hdollar
      exact absurd hdollar (by decide)
  | case6 dollar c d cs hopen ih =>
    rw [List.cons_append, List.cons_append, scan, if_neg hopen, ← List.cons_append, scan, if_neg hopen] at h
    exact ih h

/-- **Settled texts are those that leave what follows alone**: whatever is written after them, the tokens are
those of both. -/
theorem settled_iff {s : String} :
    Settled s ↔ ∀ t : String,
      expressions (parse (s ++ t)) = expressions (parse s) ++ expressions (parse t) := by
  constructor
  · intro h t
    rw [parse, String.toList_append, scan_append_of_settles h, expressions_gather, expressions_append]
    rfl
  · intro h
    have htest := h (renderToken "b")
    rw [parse, String.toList_append, (reads_renderToken (by decide)).expressions_parse] at htest
    exact settles_of_expressions htest

/-! ### Replaced tokens -/

/-- What can stand in the place of a piece: literal text stays; a token gives way to another one, without blanks at
its ends, or to a settled text without tokens. -/
inductive Stands : Segment → Segment → Prop
  | text (s : String) : Stands (.text s) (.text s)
  | token {e e' : String} (htrim : Text.trim e'.toList = e'.toList) : Stands (.expr e) (.expr e')
  | value {e s : String} (hfree : expressions (parse s) = []) (hs : Settled s) : Stands (.expr e) (.text s)

theorem forall₂_flush {text : List Char} {l l' : List Segment} (h : List.Forall₂ Stands (flush text ++ l) l') :
    ∃ r, l' = flush text ++ r ∧ List.Forall₂ Stands l r := by
  cases text with
  | nil => exact ⟨l', rfl, h⟩
  | cons c text =>
    cases h with
    | cons hfirst hrest =>
      cases hfirst
      exact ⟨_, rfl, hrest⟩

theorem eq_flush_of_forall₂ {text : List Char} {l : List Segment} (h : List.Forall₂ Stands (flush text) l) :
    l = flush text := by
  rw [← List.append_nil (flush text)] at h
  obtain ⟨r, rfl, hr⟩ := forall₂_flush h
  cases hr
  rw [List.append_nil]

/-- A settled text without tokens is literal in front of any other. -/
theorem scan_append_of_settled {s : String} (hs : Settled s) (hfree : expressions (parse s) = [])
    (text t : List Char) :
    scan text false (s.toList ++ t) = gather (s.toList.reverse ++ text) (scan [] false t) := by
  have hscan : scan text false s.toList = flush (s.toList.reverse ++ text) :=
    scan_of_expressions_eq_nil (by rw [expressions_scan_eq]; exact hfree)
  rw [scan_append_of_settles hs, hscan, gather_flush, List.append_nil]

/-- What stands before the first end of a token is free of it, without blanks at its ends too. -/
theorem isWhole_of_cut {s a b : List Char} (h : Text.cut ['\x7d', '\x7d'] s = some (a, b)) :
    IsWhole (String.ofList (Text.trim a)) := by
  have hnone := Text.contains_of_cut h
  rw [IsWhole, String.toList_ofList, ← Bool.not_eq_true, Text.contains_iff]
  rw [← Bool.not_eq_true, Text.contains_iff] at hnone
  exact fun hmem => hnone (hmem.trans (Text.trim_isInfix a))

/-- Whatever expression is written as a token, it is a whole one that is read there. -/
theorem exists_expressions_scan_renderToken (e : String) (text rest : List Char) :
    ∃ e' l, IsWhole e' ∧ expressions (scan text false ((renderToken e).toList ++ rest)) = e' :: l := by
  have hsome : Text.contains ['\x7d', '\x7d'] (' ' :: (e.toList ++ ' ' :: '\x7d' :: '\x7d' :: rest)) = true :=
    Text.contains_iff.2 ⟨' ' :: (e.toList ++ [' ']), rest, by simp⟩
  obtain ⟨⟨a, b⟩, hcut⟩ := Option.isSome_iff_exists.1 hsome
  refine ⟨_, expressions (scan [] false b), isWhole_of_cut hcut, ?_⟩
  have htake : takeToken (tokenTail e rest) = some (a, b) := hcut
  rw [renderToken_append, expressions_scan_opener, htake]

/-- Whether two lists differ at a place that both have. -/
def Diverge (l l' : List String) : Prop := ∃ a x b y c, l = a ++ x :: b ∧ l' = a ++ y :: c ∧ x ≠ y

theorem Diverge.ne {l l' : List String} (h : Diverge l l') : l ≠ l' := by
  obtain ⟨a, x, b, y, c, rfl, rfl, hne⟩ := h
  exact fun hsame => hne (List.cons.inj (List.append_cancel_left hsame)).1

theorem Diverge.append {l l' : List String} (h : Diverge l l') (r r' : List String) :
    Diverge (l ++ r) (l' ++ r') := by
  obtain ⟨a, x, b, y, c, rfl, rfl, hne⟩ := h
  exact ⟨a, x, b ++ r, y, c ++ r', by simp, by simp, hne⟩

theorem Diverge.after {l l' : List String} (h : Diverge l l') (p : List String) :
    Diverge (p ++ l) (p ++ l') := by
  obtain ⟨a, x, b, y, c, rfl, rfl, hne⟩ := h
  exact ⟨p ++ a, x, b, y, c, by simp, by simp, hne⟩

/-- Whether pieces that were put together are read like this: as they are, if all their tokens are whole.  If not,
the tokens that are read differ from theirs at the first one that is not. -/
def ReadAs (l read : List Segment) : Prop :=
  ((∀ e ∈ expressions l, IsWhole e) ∧ read = gather [] l) ∨
    (∃ e ∈ expressions l, ¬ IsWhole e) ∧ Diverge (expressions l) (expressions read)

theorem readAs_flush (text : List Char) : ReadAs (flush text) (flush text) := by
  refine Or.inl ⟨fun e he => ?_, ?_⟩
  · rw [expressions_flush] at he
    cases he
  · rw [gather_flush_self, List.append_nil]

/-- A whole token is read as it is, and one that is not is the first to be read in another way. -/
theorem ReadAs.token {l : List Segment} {t : List Char} (h : ReadAs l (scan [] false t)) {e : String}
    (htrim : Text.trim e.toList = e.toList) (text : List Char) :
    ReadAs (flush text ++ .expr e :: l) (scan text false ((renderToken e).toList ++ t)) := by
  have hexpressions : expressions (flush text ++ .expr e :: l) = e :: expressions l := by
    rw [expressions_append, expressions_flush, List.nil_append, expressions]
  rw [ReadAs, hexpressions, List.forall_mem_cons, List.exists_mem_cons_iff]
  by_cases he : IsWhole e
  · rw [scan_renderToken ⟨htrim, he⟩]
    rcases h with ⟨hwhole, hread⟩ | ⟨hbroken, hread⟩
    · rw [hread, gather_flush, List.append_nil, gather]
      exact Or.inl ⟨⟨he, hwhole⟩, rfl⟩
    · rw [expressions_append, expressions_flush, List.nil_append, expressions]
      exact Or.inr ⟨Or.inr hbroken, hread.after [e]⟩
  · obtain ⟨x, m, hx, hcut⟩ := exists_expressions_scan_renderToken e text t
    rw [hcut]
    exact Or.inr ⟨Or.inl he, [], e, _, x, m, rfl, rfl, fun hsame => he (hsame ▸ hx)⟩

/-- A settled text without tokens is read as literal text. -/
theorem ReadAs.value {l : List Segment} {t : List Char} (h : ReadAs l (scan [] false t)) {s : String}
    (hfree : expressions (parse s) = []) (hs : Settled s) (text : List Char) :
    ReadAs (flush text ++ .text s :: l) (scan text false (s.toList ++ t)) := by
  have hexpressions : expressions (flush text ++ .text s :: l) = expressions l := by
    rw [expressions_append, expressions_flush, List.nil_append, expressions]
  rw [ReadAs, hexpressions, scan_append_of_settled hs hfree, expressions_gather]
  rcases h with ⟨hwhole, hread⟩ | hbroken
  · rw [hread, gather_gather, gather_flush, List.append_nil, List.nil_append, gather]
    exact Or.inl ⟨hwhole, rfl⟩
  · exact Or.inr hbroken

/-- The rest of a text that is literal stays. -/
theorem exists_scan_literal {text u : List Char} {dollar : Bool}
    (hscan : scan text dollar u = flush (u.reverse ++ text)) {l : List Segment}
    (h : List.Forall₂ Stands (flush (u.reverse ++ text)) l) :
    ∃ t, rewritten id l = text.reverse ++ t ∧ (dollar = true → t.head? = u.head?) ∧
      ReadAs l (scan text dollar t) := by
  rw [eq_flush_of_forall₂ h]
  refine ⟨u, ?_, fun _ => rfl, ?_⟩
  · rw [← List.append_nil (flush _), rewritten_flush, List.reverse_append, List.reverse_reverse]
    exact List.append_nil _
  · rw [hscan]
    exact readAs_flush _

/-- The rest of a text with replaced tokens is read, after the same characters, as the pieces that were put
together. -/
theorem exists_scan_written {text : List Char} {dollar : Bool} {s : List Char} {l : List Segment}
    (h : List.Forall₂ Stands (scan text dollar s) l) :
    ∃ t, rewritten id l = text.reverse ++ t ∧ (dollar = true → t.head? = s.head?) ∧
      ReadAs l (scan text dollar t) := by
  fun_induction scan text dollar s generalizing l with
  | case1 text dollar => exact exists_scan_literal (u := []) (by rw [scan]; rfl) h
  | case2 text dollar c => exact exists_scan_literal (u := [c]) (by rw [scan]; rfl) h
  | case3 text c d cs hopen ih =>
    -- an escaped opener is literal
    obtain ⟨t, hwritten, -, hread⟩ := ih h
    refine ⟨c :: d :: t, by rw [hwritten]; simp, fun _ => rfl, ?_⟩
    rw [scan, if_pos hopen, if_pos rfl]
    exact hread
  | case4 text dollar c d cs hopen hdollar e rest htake ih =>
    rw [Bool.not_eq_true] at hdollar
    subst hdollar
    obtain ⟨r, rfl, hr⟩ := forall₂_flush h
    cases hr with
    | cons hfirst hrest =>
      obtain ⟨t, hwritten, -, hread⟩ := ih hrest
      cases hfirst with
      | @token _ e' htrim =>
        exact ⟨(renderToken e').toList ++ t, by rw [rewritten_flush, rewritten, hwritten]; rfl,
          fun hdollar => absurd hdollar Bool.false_ne_true, hread.token htrim text⟩
      | @value _ w hfree hs =>
        exact ⟨w.toList ++ t, by rw [rewritten_flush, rewritten, hwritten]; rfl,
          fun hdollar => absurd hdollar Bool.false_ne_true, hread.value hfree hs text⟩
  | case5 text dollar c d cs hopen hdollar htake =>
    obtain ⟨rfl, rfl⟩ := hopen
    rw [Bool.not_eq_true] at hdollar
    subst hdollar
    have hreverse : cs.reverse ++ '\x7b' :: '$' :: text = ('$' :: '\x7b' :: cs).reverse ++ text := by simp
    rw [hreverse] at h
    exact exists_scan_literal (by rw [scan_unclosed text htake, hreverse]) h
  | case6 text dollar c d cs hopen ih =>
    obtain ⟨t, hwritten, hhead, hread⟩ := ih h
    have hstep : scan text dollar (c :: t) = scan (c :: text) (c = '$') t := by
      refine scan_cons text dollar fun hc => hopen ⟨hc.1, ?_⟩
      rw [hhead (by simpa using hc.1)] at hc
      exact Option.some.inj hc.2
    refine ⟨c :: t, by rw [hwritten]; simp, fun _ => rfl, ?_⟩
    rw [hstep]
    exact hread

/-- A text with replaced tokens: all of them are whole and it is read in the pieces that were put together, or
its tokens differ from theirs. -/
theorem whole_or_diverge {s : String} {l : List Segment} (h : List.Forall₂ Stands (parse s) l) :
    ((∀ e ∈ expressions l, IsWhole e) ∧ parse (String.ofList (rewritten id l)) = gather [] l) ∨
      (∃ e ∈ expressions l, ¬ IsWhole e) ∧
        Diverge (expressions l) (expressions (parse (String.ofList (rewritten id l)))) := by
  obtain ⟨t, hwritten, -, hread⟩ := exists_scan_written h
  rw [parse, String.toList_ofList, show rewritten id l = t from hwritten]
  exact hread

/-- **A text with replaced tokens is read in the pieces that were put together**, if their tokens are whole. -/
theorem parse_written {s : String} {l : List Segment} (h : List.Forall₂ Stands (parse s) l)
    (hwhole : ∀ e ∈ expressions l, IsWhole e) : parse (String.ofList (rewritten id l)) = gather [] l := by
  rcases whole_or_diverge h with ⟨-, hread⟩ | ⟨⟨e, he, hbroken⟩, -⟩
  · exact hread
  · exact absurd (hwhole e he) hbroken

/-- **Its tokens are those that were put in exactly if they are whole.** -/
theorem expressions_written_iff {s : String} {l : List Segment} (h : List.Forall₂ Stands (parse s) l) :
    expressions (parse (String.ofList (rewritten id l))) = expressions l ↔ ∀ e ∈ expressions l, IsWhole e := by
  rcases whole_or_diverge h with ⟨hwhole, hread⟩ | ⟨⟨e, he, hbroken⟩, hread⟩
  · rw [hread, expressions_gather]
    exact iff_of_true rfl hwhole
  · exact iff_of_false hread.ne.symm fun hwhole => hbroken (hwhole e he)

/-! ### Rewritten values -/

section Rewriting

variable {f : String → String} {r : String → Id (Option Value)}

theorem forall₂_rewriteSegment {l : List Segment}
    (htrim : ∀ e ∈ expressions l, Text.trim (f e).toList = (f e).toList) :
    List.Forall₂ Stands l (l.map (rewriteSegment f)) := by
  induction l with
  | nil => exact .nil
  | cons x l ih =>
    cases x with
    | text t => exact .cons (.text t) (ih htrim)
    | expr e =>
      rw [expressions, List.forall_mem_cons] at htrim
      exact .cons (.token htrim.1) (ih htrim.2)

theorem whole_or_diverge_mapText (hr : Rewrites f r) {s : String}
    (htrim : ∀ e ∈ expressions (parse s), Text.trim (f e).toList = (f e).toList) :
    (∀ e ∈ expressions (parse s), IsWhole (f e)) ∨
      Diverge ((expressions (parse s)).map f) (visitExpressions (Id.run (mapText r s))) := by
  rw [mapText_of_rewrites hr, visitExpressions]
  split
  · have hmap : rewritten f (parse s) = rewritten id ((parse s).map (rewriteSegment f)) :=
      (rewritten_map f id (parse s)).symm
    rw [hmap, ← expressions_map_rewriteSegment]
    rcases whole_or_diverge (forall₂_rewriteSegment htrim) with ⟨hwhole, -⟩ | ⟨-, hread⟩
    · rw [expressions_map_rewriteSegment, List.forall_mem_map] at hwhole
      exact Or.inl hwhole
    · exact Or.inr hread
  · rename_i hnone
    have hempty : expressions (parse s) = [] := by simpa [hasExpressions] using hnone
    rw [hempty]
    exact Or.inl fun e he => by cases he

mutual

/-- The tokens of a value whose expressions are rewritten are whole, or they differ from the rewritten ones. -/
theorem whole_or_diverge_mapExpressions (hr : Rewrites f r) : ∀ {v : Value},
    (∀ e ∈ visitExpressions v, Text.trim (f e).toList = (f e).toList) →
    (∀ e ∈ visitExpressions v, IsWhole (f e)) ∨
      Diverge ((visitExpressions v).map f) (visitExpressions (Id.run (mapExpressions r v)))
  | .str s, htrim => by
    rw [mapExpressions]
    exact whole_or_diverge_mapText hr htrim
  | .arr items, htrim => by
    rw [mapExpressions]
    exact whole_or_diverge_mapItems hr htrim
  | .obj fields, htrim => by
    rw [mapExpressions]
    exact whole_or_diverge_mapFields hr htrim
  | .null, _ => Or.inl nofun
  | .bool _, _ => Or.inl nofun
  | .num _, _ => Or.inl nofun

theorem whole_or_diverge_mapItems (hr : Rewrites f r) : ∀ {vs : List Value},
    (∀ e ∈ visitExpressions.visitItems vs, Text.trim (f e).toList = (f e).toList) →
    (∀ e ∈ visitExpressions.visitItems vs, IsWhole (f e)) ∨
      Diverge ((visitExpressions.visitItems vs).map f)
        (visitExpressions.visitItems (Id.run (mapExpressions.mapItems r vs)))
  | [], _ => Or.inl nofun
  | v :: vs, htrim => by
    rw [visitExpressions.visitItems, List.forall_mem_append] at htrim
    rw [mapExpressions.mapItems, visitExpressions.visitItems, List.forall_mem_append, List.map_append]
    show _ ∨ Diverge _ (visitExpressions (Id.run (mapExpressions r v))
      ++ visitExpressions.visitItems (Id.run (mapExpressions.mapItems r vs)))
    rcases whole_or_diverge_mapExpressions hr htrim.1 with hfirst | hfirst
    · rw [visitExpressions_mapExpressions hr fun e he => ⟨htrim.1 e he, hfirst e he⟩]
      rcases whole_or_diverge_mapItems hr htrim.2 with hrest | hrest
      · exact Or.inl ⟨hfirst, hrest⟩
      · exact Or.inr (hrest.after _)
    · exact Or.inr (hfirst.append _ _)

theorem whole_or_diverge_mapFields (hr : Rewrites f r) : ∀ {vs : List (String × Value)},
    (∀ e ∈ visitExpressions.visitFields vs, Text.trim (f e).toList = (f e).toList) →
    (∀ e ∈ visitExpressions.visitFields vs, IsWhole (f e)) ∨
      Diverge ((visitExpressions.visitFields vs).map f)
        (visitExpressions.visitFields (Id.run (mapExpressions.mapFields r vs)))
  | [], _ => Or.inl nofun
  | (k, v) :: vs, htrim => by
    rw [visitExpressions.visitFields, List.forall_mem_append] at htrim
    rw [mapExpressions.mapFields, visitExpressions.visitFields, List.forall_mem_append, List.map_append]
    show _ ∨ Diverge _ (visitExpressions (Id.run (mapExpressions r v))
      ++ visitExpressions.visitFields (Id.run (mapExpressions.mapFields r vs)))
    rcases whole_or_diverge_mapExpressions hr htrim.1 with hfirst | hfirst
    · rw [visitExpressions_mapExpressions hr fun e he => ⟨htrim.1 e he, hfirst e he⟩]
      rcases whole_or_diverge_mapFields hr htrim.2 with hrest | hrest
      · exact Or.inl ⟨hfirst, hrest⟩
      · exact Or.inr (hrest.after _)
    · exact Or.inr (hfirst.append _ _)

end

/-- **Rewriting expressions rewrites those that a value visits exactly if the new ones are whole.** -/
theorem visitExpressions_rewritten_iff (hr : Rewrites f r) {v : Value}
    (htrim : ∀ e ∈ visitExpressions v, Text.trim (f e).toList = (f e).toList) :
    visitExpressions (Id.run (mapExpressions r v)) = (visitExpressions v).map f ↔
      ∀ e ∈ visitExpressions v, IsWhole (f e) := by
  constructor
  · intro hsame
    refine (whole_or_diverge_mapExpressions hr htrim).resolve_right fun hdiverge => ?_
    exact hdiverge.ne hsame.symm
  · exact fun hwhole => visitExpressions_mapExpressions hr fun e he => ⟨htrim e he, hwhole e he⟩

end Rewriting

end Template

end Groundwork
