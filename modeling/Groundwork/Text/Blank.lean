/-!
# Blank characters

The characters of the Unicode property White_Space, and cutting them off the ends of a text.

Main statements: `trim` leaves no blank character at either end (`head_trim`, `getLast_trim`), and changes nothing
where there is none (`trim_eq_self`).
-/

namespace Groundwork.Text

/-- White_Space: the twenty-five characters that are blank. -/
def isBlank (c : Char) : Bool :=
  let n := c.toNat
  (0x9 ≤ n && n ≤ 0xd) || n = 0x20 || n = 0x85 || n = 0xa0 || n = 0x1680
    || (0x2000 ≤ n && n ≤ 0x200a) || n = 0x2028 || n = 0x2029 || n = 0x202f || n = 0x205f
    || n = 0x3000

/-- The text without blank characters at its start. -/
def trimStart (s : List Char) : List Char := s.dropWhile isBlank

/-- The text without blank characters at its end. -/
def trimEnd (s : List Char) : List Char := (s.reverse.dropWhile isBlank).reverse

/-- The text without blank characters at its ends. -/
def trim (s : List Char) : List Char := trimEnd (trimStart s)

/-- A string without blank characters at its ends. -/
def trimString (s : String) : String := String.ofList (trim s.toList)

theorem isBlank_of_isWhitespace {c : Char} (h : c.isWhitespace = true) : isBlank c = true := by
  simp only [Char.isWhitespace, Bool.or_eq_true, decide_eq_true_eq] at h
  rcases h with ((h | h) | h) | h <;> subst h <;> decide

theorem getLast_trim {s : List Char} {c : Char} (h : (trim s).getLast? = some c) :
    isBlank c = false := by
  simp only [trim, trimEnd, List.getLast?_reverse] at h
  have := List.head?_dropWhile_not isBlank (trimStart s).reverse
  rw [h] at this
  simpa using this

theorem trimEnd_isPrefix (s : List Char) : trimEnd s <+: s := by
  have h := List.dropWhile_suffix isBlank (l := s.reverse)
  simpa [trimEnd] using List.reverse_prefix.2 h

theorem head_trim {s : List Char} {c : Char} (h : (trim s).head? = some c) : isBlank c = false := by
  have hp := trimEnd_isPrefix (trimStart s)
  have hs : (trimStart s).head? = some c := by
    obtain ⟨t, ht⟩ := hp
    rw [← ht, List.head?_append]
    simp only [trim] at h
    simp [h]
  have := List.head?_dropWhile_not isBlank s
  rw [show s.dropWhile isBlank = trimStart s from rfl, hs] at this
  simpa using this

theorem trimStart_eq_self {s : List Char} (h : ∀ c, s.head? = some c → isBlank c = false) :
    trimStart s = s := by
  cases s with
  | nil => rfl
  | cons c s => exact List.dropWhile_cons_of_neg (by rw [h c rfl]; exact Bool.false_ne_true)

theorem trimEnd_eq_self {s : List Char} (h : ∀ c, s.getLast? = some c → isBlank c = false) :
    trimEnd s = s := by
  have hreverse : s.reverse.dropWhile isBlank = s.reverse :=
    trimStart_eq_self fun c hc => h c (by rw [List.getLast?_eq_head?_reverse]; exact hc)
  rw [trimEnd, hreverse, List.reverse_reverse]

theorem trim_eq_self {s : List Char} (hhead : ∀ c, s.head? = some c → isBlank c = false)
    (hlast : ∀ c, s.getLast? = some c → isBlank c = false) : trim s = s := by
  rw [trim, trimStart_eq_self hhead, trimEnd_eq_self hlast]

theorem trim_trim (s : List Char) : trim (trim s) = trim s :=
  trim_eq_self (fun _ h => head_trim h) fun _ h => getLast_trim h

end Groundwork.Text
