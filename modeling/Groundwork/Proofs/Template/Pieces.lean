import Groundwork.Proofs.Template.Settling
import Mathlib.Data.List.Chain

/-!
# The pieces of a text

A text falls into pieces, each of them literal text or a token, that are the text when they are put together again.
Here it is said what a piece is, without a word on how pieces are found: a token in canonical form ends at the first
two closing braces, and one with single braces ends at the brace that closes it, where braces and quotation marks
within it are balanced.  Which openers begin a token can then be told from the places of the tokens alone.

Main statements: the texts that counting braces accepts are the balanced ones (`takeBraced_eq_some_iff`), and
`Template.parse` gives the segments of pieces that a text falls into (`parse_pieces`).
-/

namespace Groundwork

namespace Text

/-- A cut is made at the first occurrence. -/
theorem length_le_of_cut {p : Char} {sep s a b a' b' : List Char} (h : cut (p :: sep) s = some (a, b))
    (hs : s = a' ++ (p :: sep ++ b')) : a.length ≤ a'.length := by
  induction s generalizing a a' with
  | nil => cases h
  | cons c s ih =>
    unfold cut at h
    cases hstart : dropStart (p :: sep) (c :: s) with
    | some rest =>
      rw [hstart] at h
      cases h
      exact Nat.zero_le _
    | none =>
      rw [hstart] at h
      obtain ⟨⟨a₁, b₁⟩, hcut, hparts⟩ := Option.map_eq_some_iff.1 h
      cases hparts
      cases a' with
      | nil =>
        rw [hs, List.nil_append, dropStart_append_self] at hstart
        cases hstart
      | cons d a' => exact Nat.succ_le_succ (ih hcut (List.cons.inj hs).2)

end Text

namespace Template

/-! ### Balanced texts -/

/-- The rest of a quoted passage, up to the mark that closes it and with that mark.  The character behind a backslash
belongs to the passage, whatever it is. -/
inductive Closing (mark : Char) : List Char → Prop
  | mark : Closing mark [mark]
  | escaped (c : Char) {s : List Char} (rest : Closing mark s) : Closing mark ('\\' :: c :: s)
  | char {c : Char} {s : List Char} (inside : c ≠ mark ∧ c ≠ '\\') (rest : Closing mark s) : Closing mark (c :: s)

/-- Texts in which every brace that is opened is closed, and the other way round; what is quoted does not count. -/
inductive Balanced : List Char → Prop
  | nil : Balanced []
  | char {c : Char} {s : List Char} (plain : c ∉ ['\x7b', '\x7d', '"', '\'']) (rest : Balanced s) : Balanced (c :: s)
  | quoted {q : Char} {t s : List Char} (hq : q = '"' ∨ q = '\'') (passage : Closing q t) (rest : Balanced s) :
      Balanced (q :: (t ++ s))
  | braced {s t : List Char} (inner : Balanced s) (rest : Balanced t) : Balanced ('\x7b' :: (s ++ '\x7d' :: t))

theorem takeBraced_closing {q : Char} (hq : q = '"' ∨ q = '\'') {t : List Char} (h : Closing q t) (depth : Nat)
    (s : List Char) : takeBraced depth (some q) (t ++ s) = prepend t (takeBraced depth none s) := by
  have hescape : q ≠ '\\' := by rcases hq with rfl | rfl <;> decide
  induction h with
  | mark => rw [List.singleton_append, takeBraced_some depth hescape, if_pos rfl]
  | escaped c rest ih =>
    rw [List.cons_append, List.cons_append, takeBraced, ih]
    exact prepend_prepend ['\\', c] _ _
  | char inside rest ih =>
    rw [List.cons_append, takeBraced_some depth inside.2, if_neg inside.1, ih]
    exact prepend_prepend [_] _ _

/-- Counting braces passes over a balanced text. -/
theorem takeBraced_balanced {x : List Char} (h : Balanced x) (depth : Nat) (s : List Char) :
    takeBraced depth none (x ++ s) = prepend x (takeBraced depth none s) := by
  induction h generalizing depth s with
  | nil => exact (prepend_nil _).symm
  | char plain rest ih =>
    simp only [List.mem_cons, List.not_mem_nil, or_false, not_or] at plain
    rw [List.cons_append, takeBraced_none, if_neg (not_or.2 plain.2.2), if_neg plain.1, if_neg plain.2.1, ih]
    exact prepend_prepend [_] _ _
  | @quoted q t u hq passage rest ih =>
    rw [List.cons_append, takeBraced_none, if_pos hq, List.append_assoc, takeBraced_closing hq passage, ih,
      prepend_prepend, prepend_prepend]
    rfl
  | @braced u t inner rest ihu iht =>
    have hclose : takeBraced (depth + 1) none ('\x7d' :: (t ++ s))
        = prepend ['\x7d'] (takeBraced depth none (t ++ s)) := by
      rw [takeBraced_none, if_neg (by decide), if_neg (by decide), if_pos rfl, if_neg (Nat.succ_ne_zero depth)]
      rfl
    rw [List.cons_append, takeBraced_none, if_neg (by decide), if_pos rfl, List.append_assoc, List.cons_append, ihu,
      hclose, iht, prepend_prepend, prepend_prepend, prepend_prepend]
    simp

/-- What closes a number of braces that were opened before: balanced texts with a closing brace between each two. -/
inductive Nested : Nat → List Char → Prop
  | last {s : List Char} (h : Balanced s) : Nested 0 s
  | more {n : Nat} {s t : List Char} (h : Balanced s) (rest : Nested n t) : Nested (n + 1) (s ++ '\x7d' :: t)

theorem Nested.front {n : Nat} {w t : List Char} (hw : ∀ s, Balanced s → Balanced (w ++ s)) (h : Nested n t) :
    Nested n (w ++ t) := by
  cases h with
  | last h => exact .last (hw _ h)
  | more h rest =>
    rw [← List.append_assoc]
    exact .more (hw _ h) rest

/-- The text that counting braces goes through, by whether it starts within quotation marks. -/
def Counted (depth : Nat) (x : List Char) : Option Char → Prop
  | none => Nested depth x
  | some q => ∃ t y, x = t ++ y ∧ Closing q t ∧ Nested depth y

/-- What counting braces accepts is closed by the brace behind it. -/
theorem counted_of_takeBraced {depth : Nat} {q : Option Char} (hq : Quoting q) {s x rest : List Char}
    (h : takeBraced depth q s = some (x, rest)) : Counted depth x q ∧ s = x ++ '\x7d' :: rest := by
  fun_induction takeBraced depth q s generalizing x with
  | case1 => cases h
  | case2 => cases h
  | case3 depth q c s ih =>
    obtain ⟨x, hx, rfl⟩ := prepend_eq_some (w := ['\\', c]) h
    obtain ⟨⟨t, y, rfl, ht, hy⟩, rfl⟩ := ih hq hx
    exact ⟨⟨_, y, rfl, .escaped c ht, hy⟩, rfl⟩
  | case4 depth q c s hlast hmore ih =>
    obtain ⟨x, hx, rfl⟩ := prepend_eq_some (w := [c]) h
    have hescape : c ≠ '\\' := fun hc => by
      cases s with
      | nil => exact hlast hc rfl
      | cons d s => exact hmore d s hc rfl
    by_cases hmark : c = q
    · rw [if_pos hmark] at ih hx
      obtain ⟨hnested, rfl⟩ := ih quoting_none hx
      rw [hmark]
      exact ⟨⟨[q], x, rfl, .mark, hnested⟩, rfl⟩
    · rw [if_neg hmark] at ih hx
      obtain ⟨⟨t, y, rfl, ht, hy⟩, rfl⟩ := ih hq hx
      exact ⟨⟨c :: t, y, rfl, .char ⟨hmark, hescape⟩ ht, hy⟩, rfl⟩
  | case5 depth c s keep hquote ih =>
    obtain ⟨x, hx, rfl⟩ := prepend_eq_some (w := [c]) h
    obtain ⟨⟨t, y, rfl, ht, hy⟩, rfl⟩ := ih (fun d hd => Option.some.inj hd ▸ hquote) hx
    exact ⟨Nested.front (w := c :: t) (fun _ hu => .quoted hquote ht hu) hy, rfl⟩
  | case6 depth s keep _ ih =>
    obtain ⟨x, hx, rfl⟩ := prepend_eq_some (w := ['\x7b']) h
    obtain ⟨hinner, rfl⟩ := ih quoting_none hx
    cases hinner with
    | @more _ u t hu ht =>
      refine ⟨?_, rfl⟩
      have hfront : Nested depth (('\x7b' :: (u ++ ['\x7d'])) ++ t) :=
        Nested.front (fun v hv => by simpa using hu.braced hv) ht
      simpa [Counted] using hfront
  | case7 s _ _ =>
    cases h
    exact ⟨.last .nil, rfl⟩
  | case8 s depth keep _ _ ih =>
    obtain ⟨x, hx, rfl⟩ := prepend_eq_some (w := ['\x7d']) h
    obtain ⟨hinner, rfl⟩ := ih quoting_none hx
    exact ⟨Nested.more .nil hinner, rfl⟩
  | case9 depth c s keep hquote hopen hclose ih =>
    obtain ⟨x, hx, rfl⟩ := prepend_eq_some (w := [c]) h
    obtain ⟨hinner, rfl⟩ := ih quoting_none hx
    have hplain : c ∉ ['\x7b', '\x7d', '"', '\''] := by simp [hopen, hclose, not_or.1 hquote]
    exact ⟨Nested.front (w := [c]) (fun _ hu => .char hplain hu) hinner, rfl⟩

/-- **The texts that counting braces accepts are the balanced ones.** -/
theorem takeBraced_eq_some_iff {s x rest : List Char} :
    takeBraced 0 none s = some (x, rest) ↔ Balanced x ∧ s = x ++ '\x7d' :: rest := by
  constructor
  · intro h
    obtain ⟨hcounted, hs⟩ := counted_of_takeBraced quoting_none h
    cases hcounted with
    | last hx => exact ⟨hx, hs⟩
  · rintro ⟨hx, rfl⟩
    rw [takeBraced_balanced hx, takeBraced_none, if_neg (by decide), if_neg (by decide), if_pos rfl, if_pos rfl]
    simp [prepend]

/-! ### Pieces -/

/-- The end of a token in canonical form. -/
def closer : List Char := ['\x7d', '\x7d']

/-- A piece of a text. -/
inductive Piece where
  /-- Literal text. -/
  | text (w : List Char)
  /-- A token with two braces on either side. -/
  | canonical (x : List Char)
  /-- A token with one brace on either side. -/
  | braced (x : List Char)
  deriving DecidableEq, Repr

namespace Piece

/-- The characters of a piece. -/
def chars : Piece → List Char
  | text w => w
  | canonical x => '$' :: '\x7b' :: '\x7b' :: (x ++ closer)
  | braced x => '$' :: '\x7b' :: (x ++ ['\x7d'])

/-- The segment that a piece is read as. -/
def segment : Piece → Segment
  | text w => .text (String.ofList w)
  | canonical x => .expr (String.ofList (Text.trim x))
  | braced x => .expr (String.ofList (Text.trim x))

/-- Whether a piece is a token. -/
def IsToken : Piece → Prop
  | text _ => False
  | canonical _ => True
  | braced _ => True

/-- Whether a piece is what it is meant to be: text is not empty, a token with two braces ends at the first two that
close it, and one with a single brace does not begin with a second one and is balanced up to the brace that closes
it. -/
def Sound : Piece → Prop
  | text w => w ≠ []
  | canonical x => ¬ closer <:+: x ++ ['\x7d']
  | braced x => x.head? ≠ some '\x7b' ∧ Balanced x

/-- A token ends with a brace. -/
theorem exists_chars_eq {p : Piece} (h : p.IsToken) : ∃ w, p.chars = w ++ ['\x7d'] := by
  cases p with
  | text w => cases h
  | canonical x => exact ⟨'$' :: '\x7b' :: '\x7b' :: (x ++ ['\x7d']), by simp [chars, closer]⟩
  | braced x => exact ⟨'$' :: '\x7b' :: x, rfl⟩

end Piece

/-- Whether some token begins with the opener that stands before a text. -/
def Ends (b : List Char) : Prop := ∃ p : Piece, p.IsToken ∧ p.Sound ∧ p.chars <+: '$' :: '\x7b' :: b

/-- What is cut off behind an opener belongs to a token. -/
theorem exists_piece_of_takeToken {b x rest : List Char} (h : takeToken b = some (x, rest)) :
    ∃ p : Piece, p.IsToken ∧ p.Sound ∧ '$' :: '\x7b' :: b = p.chars ++ rest ∧
      p.segment = .expr (String.ofList (Text.trim x)) := by
  by_cases hopen : b.head? = some '\x7b'
  · obtain ⟨b, rfl⟩ := List.head?_eq_some_iff.1 hopen
    have hcut : Text.cut closer b = some (x, rest) := h
    refine ⟨.canonical x, trivial, ?_, ?_, rfl⟩
    · rintro ⟨u, v, hearly⟩
      have hb : b = u ++ (closer ++ (v ++ '\x7d' :: rest)) := by
        rw [Text.cut_eq hcut, ← List.append_assoc, ← List.append_assoc, hearly]
        simp [closer]
      have hle := Text.length_le_of_cut hcut hb
      have hlength := congrArg List.length hearly
      simp only [List.length_append, closer, List.length_cons, List.length_nil] at hlength
      omega
    · rw [Text.cut_eq hcut]
      simp [Piece.chars]
  · rw [takeToken_of_head hopen, takeBraced_eq_some_iff] at h
    obtain ⟨hx, rfl⟩ := h
    refine ⟨.braced x, trivial, ⟨fun hhead => hopen ?_, hx⟩, by simp [Piece.chars], rfl⟩
    rw [List.head?_append, hhead]
    rfl

/-- **An opener is followed by its end exactly if a token begins with it.** -/
theorem ends_iff {b : List Char} : Ends b ↔ takeToken b ≠ none := by
  constructor
  · rintro ⟨p, htoken, hsound, rest, hb⟩
    cases p with
    | text w => cases htoken
    | canonical x =>
      obtain rfl : '\x7b' :: (x ++ closer ++ rest) = b := by simpa [Piece.chars] using hb
      rw [Option.ne_none_iff_isSome]
      exact Text.contains_iff.2 ⟨x, rest, rfl⟩
    | braced x =>
      obtain rfl : x ++ '\x7d' :: rest = b := by simpa [Piece.chars] using hb
      have hhead : (x ++ '\x7d' :: rest).head? ≠ some '\x7b' := by
        cases x with
        | nil => simp
        | cons c x => exact hsound.1
      rw [takeToken_of_head hhead, takeBraced_eq_some_iff.2 ⟨hsound.2, rfl⟩]
      exact Option.some_ne_none _
  · intro h
    obtain ⟨⟨x, rest⟩, htake⟩ := Option.ne_none_iff_exists'.1 h
    obtain ⟨p, htoken, hsound, hb, -⟩ := exists_piece_of_takeToken htake
    exact ⟨p, htoken, hsound, rest, hb.symm⟩

/-! ### Places -/

/-- Whether the place behind `a` lies within a token: some of its characters come before that place, and some
after it. -/
inductive Within : List Piece → List Char → Prop
  | first {p : Piece} {ps : List Piece} {a : List Char} (token : p.IsToken) (begun : a ≠ [])
      (short : a.length < p.chars.length) : Within (p :: ps) a
  | later {p : Piece} {ps : List Piece} {a : List Char} (rest : Within ps a) : Within (p :: ps) (p.chars ++ a)

/-- Whether a token begins at the place behind `a`. -/
def BeginsAt (ps : List Piece) (a : List Char) : Prop :=
  ∃ l p r, ps = l ++ p :: r ∧ p.IsToken ∧ a = l.flatMap Piece.chars

/-- Whether an opener that is not escaped stands between `a` and `b`, outside of the tokens. -/
structure OpensAt (ps : List Piece) (a b : List Char) : Prop where
  joined : ps.flatMap Piece.chars = a ++ '$' :: '\x7b' :: b
  unescaped : a.getLast? ≠ some '$'
  outside : ¬ Within ps a

/-- Whether everything from the opener between `a` and `b` on is literal. -/
def LiteralFrom (ps : List Piece) (a b : List Char) : Prop :=
  ∃ l w, ps = l ++ [.text (w ++ '$' :: '\x7b' :: b)] ∧ a = l.flatMap Piece.chars ++ w

/-- Whether a text falls into pieces.  They are the text when they are put together, no two literal ones stand next
to each other, and the openers say which of them are tokens: each that is not escaped and lies outside of the tokens
begins one, as far as the first that has no end, and with that everything is literal. -/
structure FallsInto (s : List Char) (ps : List Piece) : Prop where
  joined : ps.flatMap Piece.chars = s
  sound : ∀ p ∈ ps, p.Sound
  apart : ps.IsChain fun p q => p.IsToken ∨ q.IsToken
  begins : ∀ a b, OpensAt ps a b → (∀ a' b', OpensAt ps a' b' → a'.length ≤ a.length → Ends b') → BeginsAt ps a
  literal : ∀ a b, OpensAt ps a b → ¬ Ends b → (∀ a' b', OpensAt ps a' b' → a'.length < a.length → Ends b') →
    LiteralFrom ps a b

theorem within_cons_iff {p : Piece} {ps : List Piece} {a : List Char} :
    Within (p :: ps) a ↔
      (p.IsToken ∧ a ≠ [] ∧ a.length < p.chars.length) ∨ ∃ a', a = p.chars ++ a' ∧ Within ps a' := by
  constructor
  · intro h
    cases h with
    | first token begun short => exact .inl ⟨token, begun, short⟩
    | later rest => exact .inr ⟨_, rfl, rest⟩
  · rintro (⟨token, begun, short⟩ | ⟨a, rfl, rest⟩)
    · exact .first token begun short
    · exact .later rest

/-- A place behind some pieces lies within a token exactly if it does without them. -/
theorem within_append_iff (l : List Piece) {ps : List Piece} {a : List Char} :
    Within (l ++ ps) (l.flatMap Piece.chars ++ a) ↔ Within ps a := by
  induction l with
  | nil => rfl
  | cons p l ih =>
    rw [← ih, List.cons_append, List.flatMap_cons, List.append_assoc, within_cons_iff]
    constructor
    · rintro (⟨-, -, hshort⟩ | ⟨a', ha, hwithin⟩)
      · rw [List.length_append] at hshort
        omega
      · rwa [List.append_cancel_left ha]
    · exact fun hwithin => .inr ⟨_, rfl, hwithin⟩

theorem opensAt_append_iff {l ps : List Piece} {a b : List Char} (hl : (l.flatMap Piece.chars).getLast? ≠ some '$') :
    OpensAt (l ++ ps) (l.flatMap Piece.chars ++ a) b ↔ OpensAt ps a b := by
  have hjoined : (l ++ ps).flatMap Piece.chars = l.flatMap Piece.chars ++ a ++ '$' :: '\x7b' :: b ↔
      ps.flatMap Piece.chars = a ++ '$' :: '\x7b' :: b := by
    rw [List.flatMap_append, List.append_assoc, List.append_cancel_left_eq]
  have hunescaped : (l.flatMap Piece.chars ++ a).getLast? ≠ some '$' ↔ a.getLast? ≠ some '$' := by
    rw [List.getLast?_append]
    cases a.getLast? with
    | none => exact iff_of_true hl nofun
    | some c => rfl
  exact ⟨fun h => ⟨hjoined.1 h.joined, hunescaped.1 h.unescaped, fun hw => h.outside ((within_append_iff l).2 hw)⟩,
    fun h => ⟨hjoined.2 h.joined, hunescaped.2 h.unescaped, fun hw => h.outside ((within_append_iff l).1 hw)⟩⟩

theorem BeginsAt.append {ps : List Piece} {a : List Char} (h : BeginsAt ps a) (l : List Piece) :
    BeginsAt (l ++ ps) (l.flatMap Piece.chars ++ a) := by
  obtain ⟨m, p, r, rfl, htoken, rfl⟩ := h
  exact ⟨l ++ m, p, r, (List.append_assoc _ _ _).symm, htoken, List.flatMap_append.symm⟩

/-- An opener at which a token begins is followed by its end. -/
theorem BeginsAt.ends {ps : List Piece} {a b : List Char} (h : BeginsAt ps a) (hsound : ∀ p ∈ ps, p.Sound)
    (ho : OpensAt ps a b) : Ends b := by
  obtain ⟨l, p, r, rfl, htoken, rfl⟩ := h
  have hjoined := ho.joined
  rw [List.flatMap_append, List.append_cancel_left_eq, List.flatMap_cons] at hjoined
  exact ⟨p, htoken, hsound p (by simp), _, hjoined⟩

theorem LiteralFrom.append {ps : List Piece} {a b : List Char} (h : LiteralFrom ps a b) (l : List Piece) :
    LiteralFrom (l ++ ps) (l.flatMap Piece.chars ++ a) b := by
  obtain ⟨m, w, rfl, rfl⟩ := h
  refine ⟨l ++ m, w, (List.append_assoc _ _ _).symm, ?_⟩
  rw [List.flatMap_append, List.append_assoc]

/-- Whether it is settled what stands behind `a`: a token begins there, or everything is literal from an opener without
end on that comes no later. -/
def Accounted (ps : List Piece) (a : List Char) : Prop :=
  BeginsAt ps a ∨ ∃ a' b', OpensAt ps a' b' ∧ a'.length ≤ a.length ∧ ¬ Ends b' ∧ LiteralFrom ps a' b'

theorem Accounted.append {ps : List Piece} {a : List Char} (h : Accounted ps a) {l : List Piece}
    (hl : (l.flatMap Piece.chars).getLast? ≠ some '$') : Accounted (l ++ ps) (l.flatMap Piece.chars ++ a) := by
  rcases h with hbegins | ⟨a', b', ho, hle, hends, hliteral⟩
  · exact .inl (hbegins.append l)
  · refine .inr ⟨_, b', (opensAt_append_iff hl).2 ho, ?_, hends, hliteral.append l⟩
    rw [List.length_append, List.length_append]
    exact Nat.add_le_add_left hle _

/-- Where all openers up to a place have an end, a token begins there. -/
theorem Accounted.begins {ps : List Piece} {a : List Char} (h : Accounted ps a)
    (hends : ∀ a' b', OpensAt ps a' b' → a'.length ≤ a.length → Ends b') : BeginsAt ps a := by
  rcases h with hbegins | ⟨a', b', ho, hle, hopen, -⟩
  · exact hbegins
  · exact absurd (hends a' b' ho hle) hopen

/-- From the first opener without end on everything is literal. -/
theorem Accounted.literalFrom {ps : List Piece} {a b : List Char} (h : Accounted ps a) (hsound : ∀ p ∈ ps, p.Sound)
    (ho : OpensAt ps a b) (hopen : ¬ Ends b)
    (hends : ∀ a' b', OpensAt ps a' b' → a'.length < a.length → Ends b') : LiteralFrom ps a b := by
  rcases h with hbegins | ⟨a', b', ho', hle, hopen', hliteral⟩
  · exact absurd (hbegins.ends hsound ho) hopen
  · have hlength : a'.length = a.length :=
      Nat.le_antisymm hle (Nat.le_of_not_lt fun hlt => hopen' (hends a' b' ho' hlt))
    obtain ⟨rfl, hb⟩ := List.append_inj (ho'.joined.symm.trans ho.joined) hlength
    rwa [(List.cons.inj (List.cons.inj hb).2).2] at hliteral

/-! ### Cutting a text into pieces -/

/-- The literal piece of characters that stand in reverse, left out if empty. -/
def literalPiece (text : List Char) : List Piece := if text = [] then [] else [.text text.reverse]

/-- The pieces that a text is cut into, behind literal characters that were read before and stand in reverse. -/
inductive Divided : List Char → List Char → List Piece → Prop
  | done (text : List Char) : Divided text [] (literalPiece text)
  | char {text : List Char} {c : Char} {s : List Char} {ps : List Piece}
      (plain : ¬ (c = '$' ∧ s.head? = some '\x7b')) (rest : Divided (c :: text) s ps) : Divided text (c :: s) ps
  | escaped {text s : List Char} {ps : List Piece} (dollar : text.head? = some '$')
      (rest : Divided ('\x7b' :: '$' :: text) s ps) : Divided text ('$' :: '\x7b' :: s) ps
  | token {text s : List Char} {ps : List Piece} {p : Piece} (dollar : text.head? ≠ some '$') (token : p.IsToken)
      (sound : p.Sound) (rest : Divided [] s ps) : Divided text (p.chars ++ s) (literalPiece text ++ p :: ps)
  | unended {text s : List Char} (dollar : text.head? ≠ some '$') (open_end : ¬ Ends s) :
      Divided text ('$' :: '\x7b' :: s) (literalPiece (s.reverse ++ '\x7b' :: '$' :: text))

theorem map_segment_literalPiece (text : List Char) : (literalPiece text).map Piece.segment = flush text := by
  cases text with
  | nil => rfl
  | cons c text => rfl

theorem flatMap_chars_literalPiece (text : List Char) : (literalPiece text).flatMap Piece.chars = text.reverse := by
  cases text with
  | nil => rfl
  | cons c text => exact List.flatMap_singleton _ _

/-- What is scanned is cut into pieces. -/
theorem exists_divided (text : List Char) (dollar : Bool) (s : List Char)
    (hdollar : dollar = true ↔ text.head? = some '$') :
    ∃ ps, Divided text s ps ∧ scan text dollar s = ps.map Piece.segment := by
  fun_induction scan text dollar s with
  | case1 text dollar => exact ⟨_, .done text, (map_segment_literalPiece text).symm⟩
  | case2 text dollar c =>
    exact ⟨_, .char (by simp) (.done (c :: text)), (map_segment_literalPiece (c :: text)).symm⟩
  | case3 text c d s hopen ih =>
    obtain ⟨rfl, rfl⟩ := hopen
    obtain ⟨ps, hdivided, hscan⟩ := ih (by simp)
    exact ⟨ps, .escaped (hdollar.1 rfl) hdivided, hscan⟩
  | case4 text dollar c d s hopen hfree x rest htake ih =>
    obtain ⟨rfl, rfl⟩ := hopen
    obtain ⟨ps, hdivided, hscan⟩ := ih (by decide)
    obtain ⟨p, htoken, hsound, hs, hsegment⟩ := exists_piece_of_takeToken htake
    rw [hs]
    refine ⟨_, .token (fun h => hfree (hdollar.2 h)) htoken hsound hdivided, ?_⟩
    rw [List.map_append, List.map_cons, map_segment_literalPiece, hsegment, hscan]
  | case5 text dollar c d s hopen hfree htake =>
    obtain ⟨rfl, rfl⟩ := hopen
    have hends : ¬ Ends s := fun h => ends_iff.1 h htake
    exact ⟨_, .unended (fun h => hfree (hdollar.2 h)) hends, (map_segment_literalPiece _).symm⟩
  | case6 text dollar c d s hopen ih =>
    obtain ⟨ps, hdivided, hscan⟩ := ih (by simp)
    exact ⟨ps, .char (by simpa using hopen) hdivided, hscan⟩

namespace Divided

variable {text s : List Char} {ps : List Piece}

theorem joined (h : Divided text s ps) : ps.flatMap Piece.chars = text.reverse ++ s := by
  induction h with
  | done text => rw [flatMap_chars_literalPiece, List.append_nil]
  | char _ _ ih => rw [ih, List.reverse_cons, List.append_assoc, List.singleton_append]
  | escaped _ _ ih => simp [ih]
  | token _ _ _ _ ih => rw [List.flatMap_append, flatMap_chars_literalPiece, List.flatMap_cons, ih]; rfl
  | unended => simp [flatMap_chars_literalPiece]

theorem sound (h : Divided text s ps) : ∀ p ∈ ps, p.Sound := by
  have hliteral : ∀ text, ∀ p ∈ literalPiece text, p.Sound := by
    intro text p hp
    unfold literalPiece at hp
    split_ifs at hp with hempty
    · cases hp
    · rw [List.mem_singleton.1 hp]
      exact fun h => hempty (List.reverse_eq_nil_iff.1 h)
  induction h with
  | done text => exact hliteral text
  | char _ _ ih => exact ih
  | escaped _ _ ih => exact ih
  | token _ _ hp _ ih =>
    intro q hq
    rcases List.mem_append.1 hq with hq | hq
    · exact hliteral _ q hq
    · rcases List.mem_cons.1 hq with rfl | hq
      · exact hp
      · exact ih q hq
  | unended => exact hliteral _

theorem apart (h : Divided text s ps) : ps.IsChain fun p q => p.IsToken ∨ q.IsToken := by
  have hliteral : ∀ text, (literalPiece text).IsChain fun p q => p.IsToken ∨ q.IsToken := by
    intro text
    unfold literalPiece
    split_ifs
    · exact .nil
    · exact .singleton _
  induction h with
  | done text => exact hliteral text
  | char _ _ ih => exact ih
  | escaped _ _ ih => exact ih
  | token _ htoken _ _ ih =>
    refine (hliteral _).append (ih.cons fun q _ => .inl htoken) fun p _ q hq => .inr ?_
    cases hq
    exact htoken
  | unended => exact hliteral _

/-- The text behind what was read before, at an opener there. -/
theorem rest_eq (h : Divided text s ps) {a b : List Char} (ho : OpensAt ps (text.reverse ++ a) b) :
    s = a ++ '$' :: '\x7b' :: b := by
  have hjoined := h.joined.symm.trans ho.joined
  rwa [List.append_assoc, List.append_cancel_left_eq] at hjoined

/-- An opener behind the token that comes first is one without what was read up to there. -/
theorem exists_of_opensAt_token {p : Piece} (htoken : p.IsToken) {a b : List Char} (hnil : a ≠ [])
    (hs : p.chars ++ s = a ++ '$' :: '\x7b' :: b) (ho : OpensAt (literalPiece text ++ p :: ps) (text.reverse ++ a) b) :
    ∃ a', a = p.chars ++ a' ∧ s = a' ++ '$' :: '\x7b' :: b := by
  have hle : p.chars.length ≤ a.length := by
    by_contra hlt
    have hfirst : Within (p :: ps) a := .first htoken hnil (by omega)
    have hwithin := (within_append_iff (literalPiece text)).2 hfirst
    rw [flatMap_chars_literalPiece] at hwithin
    exact ho.outside hwithin
  obtain ⟨a', rfl⟩ : p.chars <+: a :=
    List.prefix_of_prefix_length_le (List.prefix_append _ s) (hs ▸ List.prefix_append _ _) hle
  rw [List.append_assoc, List.append_cancel_left_eq] at hs
  exact ⟨a', rfl, hs⟩

/-- An opener without end right behind what was read before makes everything literal. -/
theorem accounted_unended (hdollar : text.head? ≠ some '$') (hopen : ¬ Ends s) (a : List Char) :
    Accounted (literalPiece (s.reverse ++ '\x7b' :: '$' :: text)) (text.reverse ++ a) := by
  have hpiece : literalPiece (s.reverse ++ '\x7b' :: '$' :: text) = [.text (text.reverse ++ '$' :: '\x7b' :: s)] := by
    simp [literalPiece]
  rw [hpiece]
  refine .inr ⟨text.reverse, s, ⟨List.flatMap_singleton _ _, ?_, fun hwithin => ?_⟩, ?_, hopen, [], _, rfl, rfl⟩
  · rwa [List.getLast?_reverse]
  · rcases within_cons_iff.1 hwithin with ⟨htoken, -⟩ | ⟨a', -, hnone⟩
    · exact htoken
    · cases hnone
  · rw [List.length_append]
    exact Nat.le_add_right _ _

/-- **It is settled what each opener is** that stands behind what was read before. -/
theorem accounted (h : Divided text s ps) {a b : List Char} (ho : OpensAt ps (text.reverse ++ a) b) :
    Accounted ps (text.reverse ++ a) := by
  have hs := h.rest_eq ho
  induction h generalizing a b with
  | done text => simp at hs
  | @char text c s ps plain rest ih =>
    cases a with
    | nil =>
      cases hs
      exact absurd ⟨rfl, rfl⟩ plain
    | cons d a =>
      obtain ⟨rfl, hrest⟩ := List.cons.inj hs
      have hread : text.reverse ++ c :: a = (c :: text).reverse ++ a := by simp
      rw [hread] at ho ⊢
      exact ih ho hrest
  | @escaped text s ps dollar rest ih =>
    -- an opener right here, or at the second character, would be escaped
    match a, hs with
    | [], _ =>
      rw [List.append_nil] at ho
      exact absurd (List.getLast?_reverse.trans dollar) ho.unescaped
    | [d], hs =>
      obtain ⟨rfl, -⟩ := List.cons.inj hs
      exact absurd List.getLast?_concat ho.unescaped
    | d :: d' :: a, hs =>
      obtain ⟨rfl, hsecond⟩ := List.cons.inj hs
      obtain ⟨rfl, hrest⟩ := List.cons.inj hsecond
      have hread : text.reverse ++ '$' :: '\x7b' :: a = ('\x7b' :: '$' :: text).reverse ++ a := by simp
      rw [hread] at ho ⊢
      exact ih ho hrest
  | @token text s ps p dollar token sound rest ih =>
    by_cases hnil : a = []
    · rw [hnil, List.append_nil, ← flatMap_chars_literalPiece]
      exact .inl ⟨_, p, ps, rfl, token, rfl⟩
    · obtain ⟨a, rfl, hrest⟩ := exists_of_opensAt_token token hnil hs ho
      obtain ⟨w, hw⟩ := Piece.exists_chars_eq token
      have hchars : (literalPiece text ++ [p]).flatMap Piece.chars = text.reverse ++ p.chars := by
        rw [List.flatMap_append, flatMap_chars_literalPiece, List.flatMap_singleton]
      have hlast : ((literalPiece text ++ [p]).flatMap Piece.chars).getLast? ≠ some '$' := by
        rw [hchars, hw, ← List.append_assoc, List.getLast?_concat]
        decide
      rw [← List.append_assoc, ← hchars, ← List.singleton_append, ← List.append_assoc] at ho ⊢
      exact (ih ((opensAt_append_iff hlast).1 ho) hrest).append hlast
  | unended dollar open_end => exact accounted_unended dollar open_end a

/-- A text that is cut from its start falls into the pieces. -/
theorem fallsInto (h : Divided [] s ps) : FallsInto s ps where
  joined := h.joined
  sound := h.sound
  apart := h.apart
  begins _ _ ho := (h.accounted ho).begins
  literal _ _ ho := (h.accounted ho).literalFrom h.sound ho

end Divided

/-- **Parsing loses nothing.**  The segments of a text are those of pieces that it falls into. -/
theorem parse_pieces (s : String) : ∃ ps, FallsInto s.toList ps ∧ parse s = ps.map Piece.segment := by
  obtain ⟨ps, hdivided, hscan⟩ := exists_divided [] false s.toList (by decide)
  exact ⟨ps, hdivided.fallsInto, hscan⟩

end Template

end Groundwork
