/-!
# Searching texts

Cutting a text at the first occurrence of a separator, replacing all occurrences, and tests for parts.
Occurrences are found from the left and do not overlap.

Main statements: a cut loses nothing (`cut_eq`), and the part before it is what `cut` looked through.
-/

namespace Groundwork.Text

/-- The text after `start`, if it starts so. -/
def dropStart : List Char → List Char → Option (List Char)
  | [], s => some s
  | _ :: _, [] => none
  | p :: ps, c :: cs => if p = c then dropStart ps cs else none

/-- The text before `finish`, if it ends so. -/
def dropFinish (finish s : List Char) : Option (List Char) :=
  (dropStart finish.reverse s.reverse).map List.reverse

/-- The parts before and after the first occurrence of a separator. -/
def cut (sep : List Char) : List Char → Option (List Char × List Char)
  | [] => if sep.isEmpty then some ([], []) else none
  | c :: cs =>
      match dropStart sep (c :: cs) with
      | some rest => some ([], rest)
      | none => (cut sep cs).map fun p => (c :: p.1, p.2)

theorem dropStart_eq {p s r : List Char} (h : dropStart p s = some r) : s = p ++ r := by
  induction p generalizing s with
  | nil => simpa [dropStart] using h
  | cons a p ih =>
    cases s with
    | nil => simp [dropStart] at h
    | cons c s =>
      by_cases hac : a = c
      · simp only [dropStart, hac, if_true] at h
        simp [hac, ih h]
      · simp [dropStart, hac] at h

theorem cut_eq {sep s a b : List Char} (h : cut sep s = some (a, b)) : s = a ++ sep ++ b := by
  induction s generalizing a with
  | nil =>
    cases sep with
    | nil => simp [cut] at h; simp [h]
    | cons => simp [cut] at h
  | cons c s ih =>
    unfold cut at h
    split at h
    · rename_i rest hr
      simp only [Option.some.injEq, Prod.mk.injEq] at h
      obtain ⟨rfl, rfl⟩ := h
      simpa using dropStart_eq hr
    · obtain ⟨⟨a', b'⟩, hp, he⟩ := Option.map_eq_some_iff.1 h
      simp only [Prod.mk.injEq] at he
      obtain ⟨rfl, rfl⟩ := he
      simp [ih hp]

theorem cut_length {sep s a b : List Char} (h : cut sep s = some (a, b)) :
    s.length = a.length + sep.length + b.length := by
  rw [cut_eq h]
  simp [List.length_append, Nat.add_assoc]

theorem dropStart_append_self (p s : List Char) : dropStart p (p ++ s) = some s := by
  induction p with
  | nil => rfl
  | cons c p ih => simpa [dropStart] using ih

theorem dropFinish_append (s p : List Char) : dropFinish p (s ++ p) = some s := by
  simp [dropFinish, dropStart_append_self]

/-- Whether a text starts with another. -/
def startsWith (start s : List Char) : Bool := (dropStart start s).isSome

/-- Whether a text ends with another. -/
def endsWith (finish s : List Char) : Bool := (dropFinish finish s).isSome

/-- Whether a text contains another. -/
def contains (part s : List Char) : Bool := (cut part s).isSome

/-- Replaces every occurrence of a non-empty part. -/
def replace (part new s : List Char) : List Char :=
  if part.isEmpty then s
  else match _h : cut part s with
    | none => s
    | some (a, b) => a ++ new ++ replace part new b
termination_by s.length
decreasing_by
  have := cut_length _h
  have : part.length ≠ 0 := by
    intro hl
    simp_all [List.length_eq_zero_iff]
  omega

/-- The pieces between the occurrences of a separating character. -/
def splitOn (sep : Char) : List Char → List (List Char)
  | [] => [[]]
  | c :: cs =>
      if c = sep then [] :: splitOn sep cs
      else match splitOn sep cs with
        | [] => [[c]]
        | piece :: pieces => (c :: piece) :: pieces

theorem splitOn_ne_nil (sep : Char) (s : List Char) : splitOn sep s ≠ [] := by
  cases s with
  | nil => simp [splitOn]
  | cons c cs =>
    unfold splitOn
    split
    · simp
    · split <;> simp

theorem splitOn_of_not_mem {sep : Char} {s : List Char} (h : sep ∉ s) : splitOn sep s = [s] := by
  induction s with
  | nil => rfl
  | cons c cs ih =>
    obtain ⟨hc, hcs⟩ := not_or.1 (fun hor => h (List.mem_cons.2 hor))
    simp [splitOn, Ne.symm hc, ih hcs]

/-- A separator parts the pieces before it from those after it. -/
theorem splitOn_append (sep : Char) (a b : List Char) :
    splitOn sep (a ++ sep :: b) = splitOn sep a ++ splitOn sep b := by
  induction a with
  | nil => simp [splitOn]
  | cons c cs ih =>
    by_cases hc : c = sep
    · simp [splitOn, hc, ih]
    · rcases hpieces : splitOn sep cs with _ | ⟨piece, pieces⟩
      · exact absurd hpieces (splitOn_ne_nil sep cs)
      · simp [splitOn, hc, ih, hpieces]

/-- Texts with a separator between them. -/
def join (sep : String) (l : List String) : String := sep.intercalate l

end Groundwork.Text
