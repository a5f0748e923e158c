import Groundwork.File.Tree

/-!
# Paths below a base

A path that is made by joining a name to a base: the names on it are those on the base and the name, its directory
is the base, and another extension changes the name alone.

Main statements: `namesOf_join`, `parent?_join` and `withExtension_join`.
-/

namespace Groundwork.File

/-- Whether a name stands for itself wherever it is joined: it has no stroke, and no dot at its end. -/
structure Plain (name : String) : Prop where
  ne_empty : name ≠ ""
  no_stroke : '/' ∉ name.toList
  no_dot : name.toList.getLast? ≠ some '.'

instance (name : String) : Decidable (Plain name) :=
  decidable_of_iff (name ≠ "" ∧ '/' ∉ name.toList ∧ name.toList.getLast? ≠ some '.')
    ⟨fun h => ⟨h.1, h.2.1, h.2.2⟩, fun h => ⟨h.1, h.2, h.3⟩⟩

/-- The names on a path. -/
def pieces (path : String) : List String :=
  ((Text.splitOn '/' path.toList).map String.ofList).filter (· ≠ "")

/-- A path without strokes, and without names that stand for their place, at its end. -/
def trimmed (path : String) : String := String.ofList (trimEnd path.toList)

/-- What a name is joined to: the base, and a stroke if it needs one. -/
def lead (base : String) : List Char :=
  if base.isEmpty || Text.endsWith ['/'] base.toList then base.toList else base.toList ++ ['/']

/-! ### Texts -/

theorem startsWith_singleton (c : Char) (s : List Char) : Text.startsWith [c] s = (s.head? == some c) := by
  cases s with
  | nil => rfl
  | cons d s =>
    by_cases h : c = d
    · simp [Text.startsWith, Text.dropStart, h]
    · simp [Text.startsWith, Text.dropStart, h, Ne.symm h]

theorem endsWith_singleton (c : Char) (s : List Char) : Text.endsWith [c] s = (s.getLast? == some c) := by
  rw [← List.head?_reverse, ← startsWith_singleton]
  simp [Text.endsWith, Text.startsWith, Text.dropFinish]

theorem isAbsolute_eq (path : String) : isAbsolute path = (path.toList.head? == some '/') :=
  startsWith_singleton '/' path.toList

/-- What comes before a name that is joined is nothing or ends with a stroke. -/
theorem lead_cases (base : String) :
    (base = "" ∧ lead base = []) ∨ (∃ front, base.toList = front ++ ['/'] ∧ lead base = front ++ ['/']) ∨
      (base ≠ "" ∧ base.toList.getLast? ≠ some '/' ∧ lead base = base.toList ++ ['/']) := by
  by_cases hempty : base = ""
  · exact .inl ⟨hempty, by simp [lead, hempty]⟩
  · by_cases hstroke : base.toList.getLast? = some '/'
    · obtain ⟨front, hfront⟩ := List.getLast?_eq_some_iff.1 hstroke
      exact .inr (.inl ⟨front, hfront, by simp [lead, endsWith_singleton, hfront]⟩)
    · exact .inr (.inr ⟨hempty, hstroke, by simp [lead, endsWith_singleton, hempty, hstroke]⟩)

theorem toList_join {base path : String} (h : isAbsolute path = false) :
    (join base path).toList = lead base ++ path.toList := by
  unfold join lead
  by_cases hempty : base.isEmpty = true
  · have hbase : base = "" := by simpa using hempty
    simp [h, hbase]
  · by_cases hstroke : Text.endsWith ['/'] base.toList = true
    · simp [h, hempty, hstroke]
    · simp [h, hempty, hstroke]

theorem Plain.isAbsolute_eq_false {name : String} (h : Plain name) : isAbsolute name = false := by
  rw [isAbsolute_eq]
  cases hname : name.toList with
  | nil => rfl
  | cons c cs =>
    have hc : c ≠ '/' := fun hc => h.no_stroke (by simp [hname, hc])
    simpa using hc

section Joined

variable {name : String} (hname : Plain name) (base : String)
include hname

theorem toList_join_plain : (join base name).toList = lead base ++ name.toList :=
  toList_join hname.isAbsolute_eq_false

theorem Plain.toList_ne_nil : name.toList ≠ [] := by
  simpa using hname.ne_empty

/-- What comes before a name that is joined to a path with a name at its end. -/
theorem lead_join : lead (join base name) = lead base ++ name.toList ++ ['/'] := by
  have hlist := toList_join_plain hname base
  obtain ⟨c, hlast⟩ := Option.ne_none_iff_exists'.1 (mt List.getLast?_eq_none_iff.1 hname.toList_ne_nil)
  have hc : c ≠ '/' := fun hc => hname.no_stroke (hc ▸ List.mem_of_getLast? hlast)
  have hstroke : Text.endsWith ['/'] (join base name).toList = false := by
    rw [endsWith_singleton, hlist, List.getLast?_append, hlast]
    simpa using hc
  have hempty : (join base name).isEmpty = false := by
    rw [← Bool.not_eq_true, String.isEmpty_iff]
    intro h
    simp [h, hname.ne_empty] at hlist
  rw [lead, hempty, hstroke, hlist]
  simp

theorem join_ne_empty : join base name ≠ "" := by
  intro h
  have hlist := toList_join_plain hname base
  simp [h, hname.ne_empty] at hlist

theorem isAbsolute_join : isAbsolute (join base name) = isAbsolute base := by
  rw [isAbsolute_eq, isAbsolute_eq, toList_join_plain hname]
  rcases lead_cases base with ⟨rfl, hlead⟩ | ⟨front, hfront, hlead⟩ | ⟨hne, hstroke, hlead⟩
  · rw [hlead, List.nil_append, ← isAbsolute_eq, hname.isAbsolute_eq_false]
    rfl
  · rw [hlead, hfront]
    cases front <;> rfl
  · rw [hlead]
    have hbase : base.toList ≠ [] := by simpa using hne
    cases hlist : base.toList with
    | nil => exact absurd hlist hbase
    | cons c cs => rfl

/-! ### Names on a path -/

omit hname in
theorem pieces_eq_of_toList {path : String} (front back : String) (h : path.toList = front.toList ++ '/' :: back.toList) :
    pieces path = pieces front ++ pieces back := by
  simp only [pieces, h, Text.splitOn_append, List.map_append, List.filter_append]

theorem Plain.pieces_eq : pieces name = [name] := by
  simp [pieces, Text.splitOn_of_not_mem hname.no_stroke, hname.ne_empty]

theorem pieces_join : pieces (join base name) = pieces base ++ [name] := by
  have hlist := toList_join_plain hname base
  rcases lead_cases base with ⟨rfl, hlead⟩ | ⟨front, hfront, hlead⟩ | ⟨hne, hstroke, hlead⟩
  · have hjoin : join "" name = name := String.toList_injective (by rw [hlist, hlead, List.nil_append])
    rw [hjoin, hname.pieces_eq]
    rfl
  · have hbase : pieces base = pieces (String.ofList front) ++ pieces "" :=
      pieces_eq_of_toList _ _ (by simpa using hfront)
    have hjoined : pieces (join base name) = pieces (String.ofList front) ++ pieces name :=
      pieces_eq_of_toList _ _ (by simp [hlist, hlead])
    rw [hjoined, hbase, hname.pieces_eq]
    simp [pieces, Text.splitOn]
  · rw [pieces_eq_of_toList base name (by simp [hlist, hlead]), hname.pieces_eq]

theorem namesOf_join : FileTree.namesOf (join base name) = pieces base ++ [name] := by
  have hends : Text.endsWith ['/'] (join base name).toList = false := by
    obtain ⟨c, hlast⟩ := Option.ne_none_iff_exists'.1 (mt List.getLast?_eq_none_iff.1 hname.toList_ne_nil)
    have hc : c ≠ '/' := fun hc => hname.no_stroke (hc ▸ List.mem_of_getLast? hlast)
    rw [endsWith_singleton, toList_join_plain hname, List.getLast?_append, hlast]
    simpa using hc
  rw [← pieces_join hname base]
  simp [FileTree.namesOf, pieces, hends]

end Joined

/-! ### Names joined one after the other -/

section Folded

variable {names : List String} (hnames : ∀ name ∈ names, Plain name) (base : String)
include hnames

theorem isAbsolute_foldl_join : isAbsolute (names.foldl join base) = isAbsolute base := by
  induction names generalizing base with
  | nil => rfl
  | cons name names ih =>
    rw [List.foldl_cons, ih fun name hname => hnames name (List.mem_cons_of_mem _ hname),
      isAbsolute_join (hnames name List.mem_cons_self)]

theorem lead_foldl_join :
    lead (names.foldl join base) = lead base ++ names.flatMap fun name => name.toList ++ ['/'] := by
  induction names generalizing base with
  | nil => simp
  | cons name names ih =>
    rw [List.foldl_cons, ih fun name hname => hnames name (List.mem_cons_of_mem _ hname),
      lead_join (hnames name List.mem_cons_self), List.flatMap_cons]
    simp

theorem pieces_foldl_join : pieces (names.foldl join base) = pieces base ++ names := by
  induction names generalizing base with
  | nil => simp
  | cons name names ih =>
    rw [List.foldl_cons, ih fun name hname => hnames name (List.mem_cons_of_mem _ hname),
      pieces_join (hnames name List.mem_cons_self), List.append_assoc, List.singleton_append]

end Folded

/-! ### Directories -/

theorem dropTrailing_cons {c : Char} (hstroke : c ≠ '/') (hdot : c ≠ '.') (s : List Char) :
    dropTrailing (c :: s) = c :: s := by
  unfold dropTrailing
  split <;> simp_all

theorem dropTrailing_stroke {s : List Char} (h : s ≠ []) : dropTrailing ('/' :: s) = dropTrailing s := by
  cases s with
  | nil => exact absurd rfl h
  | cons c s => rfl

theorem trimEnd_stroke {s : List Char} (h : s ≠ []) : trimEnd (s ++ ['/']) = trimEnd s := by
  simp [trimEnd, dropTrailing_stroke (s := s.reverse) (by simpa using h)]

theorem trimEnd_lead (base : String) : trimEnd (lead base) = trimEnd base.toList := by
  rcases lead_cases base with ⟨rfl, hlead⟩ | ⟨front, hfront, hlead⟩ | ⟨hne, hstroke, hlead⟩
  · rw [hlead]
    rfl
  · rw [hlead, hfront]
  · rw [hlead, trimEnd_stroke (by simpa using hne)]

theorem trimEnd_append_plain (front : List Char) {name : String} (hname : Plain name) :
    trimEnd (front ++ name.toList) = front ++ name.toList := by
  obtain ⟨body, c, hlast⟩ := (List.eq_nil_or_concat _).resolve_left hname.toList_ne_nil
  have hstroke : c ≠ '/' := fun hc => hname.no_stroke (by simp [hlast, hc])
  have hdot : c ≠ '.' := fun hc => hname.no_dot (by simp [hlast, hc])
  simp [trimEnd, hlast, dropTrailing_cons hstroke hdot]

theorem splitLast_lead (base : String) {name : List Char} (hname : '/' ∉ name) :
    splitLast (lead base ++ name) = (lead base, name) := by
  have hall : ∀ c ∈ name.reverse, decide (c ≠ '/') = true := by
    intro c hc
    have hmem : c ∈ name := by simpa using hc
    simpa using fun h : c = '/' => hname (h ▸ hmem)
  have hstop : (lead base).reverse.takeWhile (· ≠ '/') = [] := by
    rcases lead_cases base with ⟨rfl, hlead⟩ | ⟨front, hfront, hlead⟩ | ⟨hne, hstroke, hlead⟩ <;> simp [hlead]
  have hback : ((lead base ++ name).reverse.takeWhile (· ≠ '/')).reverse = name := by
    rw [List.reverse_append, List.takeWhile_append_of_pos hall, hstop, List.append_nil, List.reverse_reverse]
  simp only [splitLast, hback]
  simp

section Joined

variable {name : String} (hname : Plain name) (base : String)
include hname

theorem trimmed_join : trimmed (join base name) = join base name := by
  rw [trimmed, toList_join_plain hname, trimEnd_append_plain _ hname, ← toList_join_plain hname, String.ofList_toList]

/-- **A name is joined to its directory.** -/
theorem parent?_join : parent? (join base name) = some (trimmed base) := by
  simp [parent?, toList_join_plain hname, trimEnd_append_plain _ hname, splitLast_lead _ hname.no_stroke,
    hname.ne_empty, trimmed, trimEnd_lead]

end Joined

/-- **Another extension changes the name alone.** -/
theorem withExtension_join (base : String) {stem old : String} (hname : Plain (stem ++ "." ++ old))
    (hstem : stem ≠ "") (hold : '.' ∉ old.toList) (new : String) :
    withExtension (join base (stem ++ "." ++ old)) new = join base (stem ++ "." ++ new) := by
  have hback : ((stem ++ "." ++ old).toList.reverse.takeWhile (· ≠ '.')).reverse = old.toList := by
    have hall : ∀ c ∈ old.toList.reverse, decide (c ≠ '.') = true := by
      intro c hc
      have hmem : c ∈ old.toList := by simpa using hc
      simpa using fun h : c = '.' => hold (h ▸ hmem)
    have hlist : (stem ++ "." ++ old).toList.reverse = old.toList.reverse ++ '.' :: stem.toList.reverse := by
      simp [String.toList_append]
    rw [hlist, List.takeWhile_append_of_pos hall]
    simp
  have hsplit : splitExtension (stem ++ "." ++ old).toList = (stem.toList, some old.toList) := by
    have hlength : (stem ++ "." ++ old).toList.length - old.toList.length - 1 = stem.toList.length := by
      simp [String.toList_append]
      omega
    simp only [splitExtension, hback, hlength]
    simp [String.toList_append, hstem]
  have hplain : (stem ++ "." ++ old).toList ≠ ['.'] := fun h => hname.no_dot (by rw [h]; rfl)
  have hplain' : (stem ++ "." ++ old).toList ≠ ['.', '.'] := fun h => hname.no_dot (by rw [h]; rfl)
  have habsolute : isAbsolute (stem ++ "." ++ new) = false := by
    have hnot := hname.isAbsolute_eq_false
    rw [isAbsolute_eq] at hnot ⊢
    cases hlist : stem.toList with
    | nil => exact absurd (by simpa using hlist) hstem
    | cons c cs => simpa [String.toList_append, hlist] using hnot
  apply String.toList_injective
  rw [toList_join habsolute]
  have hkept : ((stem ++ "." ++ old).toList.isEmpty || (stem ++ "." ++ old).toList = ['.'] ||
      (stem ++ "." ++ old).toList = ['.', '.']) = false := by
    simp only [hplain, hplain', decide_false, Bool.or_false, List.isEmpty_eq_false_iff]
    exact hname.toList_ne_nil
  simp only [withExtension, toList_join_plain hname, trimEnd_append_plain _ hname, splitLast_lead _ hname.no_stroke,
    hsplit, hkept]
  simp [String.toList_append]

/-! ### Paths without what their end does not need -/

theorem length_dropTrailing_le (s : List Char) : (dropTrailing s).length ≤ s.length := by
  fun_induction dropTrailing s <;> simp_all <;> omega

theorem length_trimmed_lt_length_join {name : String} (hname : Plain name) (base : String) :
    (trimmed base).length < (join base name).length := by
  have hle : (trimmed base).length ≤ base.toList.length := by
    simpa [trimmed, trimEnd] using length_dropTrailing_le base.toList.reverse
  have hlead : base.toList.length ≤ (lead base).length := by
    unfold lead
    split
    · exact Nat.le_refl _
    · simp only [List.length_append, Nat.le_add_right]
  have hpos : 0 < name.toList.length := List.length_pos_iff.2 hname.toList_ne_nil
  have hlength : (join base name).length = (lead base).length + name.toList.length := by
    rw [← String.length_toList, toList_join_plain hname, List.length_append]
  omega

theorem isAbsolute_trimmed (base : String) : isAbsolute (trimmed base) = isAbsolute base := by
  have hlast : ∀ s : List Char, (dropTrailing s).getLast? = s.getLast? := by
    intro s
    fun_induction dropTrailing s with
    | case2 s hs ih | case4 s hs ih =>
      obtain ⟨c, hc⟩ := Option.ne_none_iff_exists'.1 (mt List.getLast?_eq_none_iff.1 (by simpa using hs : s ≠ []))
      simp [ih, List.getLast?_cons, hc]
    | case3 s hs =>
      obtain rfl : s = [] := by simpa using hs
      rfl
    | _ => rfl
  rw [isAbsolute_eq, isAbsolute_eq]
  simp [trimmed, trimEnd, hlast]

/-- What is left out of a path are strokes, and names that stand for their place. -/
theorem pieces_trimmed (base : String) : ∃ n, pieces base = pieces (trimmed base) ++ List.replicate n "." := by
  have hstroke : ∀ s, pieces (String.ofList ('/' :: s).reverse) = pieces (String.ofList s.reverse) := by
    intro s
    rw [pieces_eq_of_toList (String.ofList s.reverse) "" (by simp)]
    simp [pieces, Text.splitOn]
  have hreversed : ∀ s : List Char, ∃ n, pieces (String.ofList s.reverse) =
      pieces (String.ofList (dropTrailing s).reverse) ++ List.replicate n "." := by
    intro s
    fun_induction dropTrailing s with
    | case1 => exact ⟨0, by simp⟩
    | case2 s hs ih => rwa [hstroke]
    | case3 s hs =>
      obtain rfl : s = [] := by simpa using hs
      exact ⟨1, by decide⟩
    | case4 s hs ih =>
      obtain ⟨n, ih⟩ := ih
      refine ⟨n + 1, ?_⟩
      rw [pieces_eq_of_toList (String.ofList s.reverse) "." (by simp), ih, List.append_assoc,
        List.replicate_succ']
      rfl
    | case5 => exact ⟨0, by simp⟩
  simpa [trimmed, trimEnd] using hreversed base.toList.reverse

end Groundwork.File
