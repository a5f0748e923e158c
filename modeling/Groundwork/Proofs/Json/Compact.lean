import Groundwork.Proofs.Data.Sorted
import Groundwork.Proofs.Json.RoundTrip

/-!
# Compact texts

The compact text of a value has no blanks, and yet nothing in it can be taken in two ways: the scanner takes the
tokens of the value off it, whatever stands in its strings, and the tokens tell the value, whatever tokens follow.
Numbers are integers here; other numbers need not be told by their texts.

Main statements: `scans_compact`, `tokens_append_inj` and what comes of the two, that values with the same compact
text are the same (`compact_inj`).
-/

namespace Groundwork

/-- Whether a number is an integer. -/
def Number.isInteger : Number → Bool
  | .int _ => true
  | .float _ => false

/-- Whether all numbers in a value are integers. -/
def Value.Integral (v : Value) : Prop := ∀ n ∈ v.numbers, n.isInteger = true

instance (v : Value) : Decidable v.Integral := inferInstanceAs (Decidable (∀ n ∈ v.numbers, n.isInteger = true))

namespace Value

theorem integral_arr_iff {items : List Value} : (arr items).Integral ↔ ∀ v ∈ items, v.Integral := by
  have hitems : ∀ items, (∀ n ∈ numbers.itemNumbers items, n.isInteger = true) ↔ ∀ v ∈ items, v.Integral := by
    intro items
    induction items with
    | nil => simp [numbers.itemNumbers]
    | cons v vs ih => simp only [numbers.itemNumbers, List.forall_mem_append, List.forall_mem_cons, ih, Integral]
  exact hitems items

theorem integral_obj_iff {fields : Table Value} : (obj fields).Integral ↔ ∀ p ∈ fields, p.2.Integral := by
  have hfields : ∀ fields, (∀ n ∈ numbers.fieldNumbers fields, n.isInteger = true) ↔ ∀ p ∈ fields, p.2.Integral := by
    intro fields
    induction fields with
    | nil => simp [numbers.fieldNumbers]
    | cons p fs ih => simp only [numbers.fieldNumbers, List.forall_mem_append, List.forall_mem_cons, ih, Integral]
  exact hfields fields

/-- Sorting brings in no number. -/
theorem Integral.sorted : ∀ {v : Value}, v.Integral → v.sorted.Integral
  | .null, h => h
  | .bool _, h => h
  | .num _, h => h
  | .str _, h => h
  | .arr items, h => by
    rw [integral_arr_iff] at h
    rw [sorted_arr, integral_arr_iff]
    intro w hw
    obtain ⟨v, hv, rfl⟩ := List.mem_map.1 hw
    exact (h v hv).sorted
  | .obj fields, h => by
    rw [integral_obj_iff] at h
    rw [sorted_obj, integral_obj_iff]
    intro p hp
    obtain ⟨q, hq, rfl⟩ := List.mem_map.1 (Table.mem_of_mem_sorted hp)
    have hsize := sizeOf_lt_of_mem hq
    exact (h q hq).sorted
termination_by v => sizeOf v

end Value

namespace Json

/-! ### Integers -/

theorem intText_inj {m n : Int} (h : Decimal.intText m = Decimal.intText n) : m = n := by
  have hsign : ∀ k l : Nat, Nat.toDigits 10 k ≠ '-' :: Nat.toDigits 10 l := by
    intro k l h
    have hdigit : '-'.isDigit = true := Decimal.isDigit_of_mem_toDigits (h ▸ List.mem_cons_self)
    cases hdigit
  have hdigits : ∀ {k l : Nat}, Nat.toDigits 10 k = Nat.toDigits 10 l → k = l := by
    intro k l h
    rw [← Decimal.digitsValue_toDigits k, h, Decimal.digitsValue_toDigits]
  cases m with
  | ofNat m =>
    cases n with
    | ofNat n => rw [hdigits h]
    | negSucc n => exact absurd h (hsign m (n + 1))
  | negSucc m =>
    cases n with
    | ofNat n => exact absurd h.symm (hsign n (m + 1))
    | negSucc n => rw [Nat.succ.inj (hdigits (List.cons.inj h).2)]

theorem looksNumeral_intText (n : Int) : LooksNumeral (Decimal.intText n) := by
  have hdigits : ∀ {k : Nat} {c : Char}, c ∈ Nat.toDigits 10 k → isNumeralChar c = true :=
    fun hc => isNumeralChar_of_isDigit (Decimal.isDigit_of_mem_toDigits hc)
  cases n with
  | ofNat n =>
    obtain ⟨c, cs, hcs⟩ := List.exists_cons_of_ne_nil (Nat.toDigits_ne_nil (n := n) (b := 10))
    have hc : c.isDigit = true := Decimal.isDigit_of_mem_toDigits (hcs ▸ List.mem_cons_self)
    exact ⟨⟨c, cs, hcs, by rw [hc]; rfl⟩, fun d hd => hdigits hd⟩
  | negSucc n =>
    refine ⟨⟨'-', _, rfl, rfl⟩, fun d hd => ?_⟩
    rcases List.mem_cons.1 hd with rfl | hd
    · rfl
    · exact hdigits hd

theorem looksNumeral_numberText {n : Number} (h : n.isInteger = true) : LooksNumeral (numberText n) := by
  cases n with
  | int n => exact looksNumeral_intText n
  | float bits => cases h

theorem numberText_inj {m n : Number} (hm : m.isInteger = true) (hn : n.isInteger = true)
    (h : numberText m = numberText n) : m = n := by
  cases m with
  | int m =>
    cases n with
    | int n => rw [intText_inj h]
    | float bits => cases hn
  | float bits => cases hm

/-! ### From texts to tokens -/

mutual

/-- **The tokens of a value** are what is scanned of its compact text. -/
theorem scans_compact : ∀ v : Value, v.Integral → Scans (compactChars v) (tokens v)
  | .null, _ => fun done => ⟨_, rfl, settled_word done ['l', 'l', 'u', 'n']⟩
  | .bool true, _ => fun done => ⟨_, rfl, settled_word done ['e', 'u', 'r', 't']⟩
  | .bool false, _ => fun done => ⟨_, rfl, settled_word done ['e', 's', 'l', 'a', 'f']⟩
  | .num n, h => scans_numeral (looksNumeral_numberText (h n (by simp [Value.numbers])))
  | .str s, _ => scans_quote s
  | .arr items, h => by
    have hitems := (scans_itemsChars items h).mark (c := ']') (t := .closeArray) rfl scans_nil
    have hall := scans_nil.mark (c := '[') (t := .openArray) rfl hitems
    simpa [compactChars, tokens] using hall
  | .obj fields, h => by
    have hfields := (scans_fieldsChars fields h).mark (c := '}') (t := .closeObject) rfl scans_nil
    have hall := scans_nil.mark (c := '{') (t := .openObject) rfl hfields
    simpa [compactChars, tokens] using hall

theorem scans_itemsChars : ∀ vs : List Value, (∀ n ∈ Value.numbers.itemNumbers vs, n.isInteger = true) →
    Scans (compactChars.itemsChars vs) (tokens.itemTokens vs)
  | [], _ => scans_nil
  | [v], h => scans_compact v fun n hn => h n (List.mem_append_left _ hn)
  | v :: w :: vs, h => by
    have hv := scans_compact v fun n hn => h n (List.mem_append_left _ hn)
    exact hv.mark rfl (scans_itemsChars (w :: vs) fun n hn => h n (List.mem_append_right _ hn))

theorem scans_fieldsChars : ∀ fs : List (String × Value),
    (∀ n ∈ Value.numbers.fieldNumbers fs, n.isInteger = true) →
    Scans (compactChars.fieldsChars fs) (tokens.fieldTokens fs)
  | [], _ => scans_nil
  | [(k, v)], h => by
    have hv := scans_compact v fun n hn => h n (List.mem_append_left _ hn)
    exact (scans_quote k).mark rfl hv
  | (k, v) :: f :: fs, h => by
    have hv := scans_compact v fun n hn => h n (List.mem_append_left _ hn)
    have hfs := scans_fieldsChars (f :: fs) fun n hn => h n (List.mem_append_right _ hn)
    have hall := (scans_quote k).mark (c := ':') (t := .colon) rfl (hv.mark (c := ',') rfl hfs)
    simpa [compactChars.fieldsChars, tokens.fieldTokens] using hall

end

theorem scan_compact {v : Value} (h : v.Integral) : scan (compact v).toList = some (tokens v) := by
  obtain ⟨s, hs, hfinish, -⟩ := scans_compact v h []
  simp [scan, compact, hs, hfinish]

/-! ### From tokens to values -/

theorem itemTokens_append (v w : Value) (vs : List Value) (ts : List Token) :
    tokens.itemTokens (v :: w :: vs) ++ ts = tokens v ++ .comma :: (tokens.itemTokens (w :: vs) ++ ts) := by
  simp [tokens.itemTokens]

theorem fieldTokens_append (k : String) (v : Value) (f : String × Value) (fs : List (String × Value))
    (ts : List Token) : tokens.fieldTokens ((k, v) :: f :: fs) ++ ts
      = .string k :: .colon :: (tokens v ++ .comma :: (tokens.fieldTokens (f :: fs) ++ ts)) := by
  simp [tokens.fieldTokens]

/-- Items do not start with the end of their array. -/
theorem itemTokens_append_ne (v : Value) (vs : List Value) (ts us : List Token) :
    tokens.itemTokens (v :: vs) ++ ts ≠ .closeArray :: us := by
  obtain ⟨t, rest, htokens, ht⟩ := tokens_cons v
  cases vs with
  | nil =>
    rw [tokens.itemTokens, htokens]
    exact fun h => ht (List.cons.inj h).1
  | cons w vs =>
    rw [itemTokens_append, htokens]
    exact fun h => ht (List.cons.inj h).1

mutual

/-- **The tokens of a value tell the value**, and where they end among others. -/
theorem tokens_append_inj : ∀ {v w : Value} {ts us : List Token}, v.Integral → w.Integral →
    tokens v ++ ts = tokens w ++ us → v = w ∧ ts = us
  | .null, w, ts, us, _, _, h => by
    cases w with
    | null => exact ⟨rfl, List.append_cancel_left h⟩
    | bool b => cases b <;> simp [tokens] at h
    | _ => simp [tokens] at h
  | .bool b, w, ts, us, _, _, h => by
    cases w with
    | bool b' => cases b <;> cases b' <;> simp_all [tokens]
    | _ => cases b <;> simp [tokens] at h
  | .num n, w, ts, us, hv, hw, h => by
    cases w with
    | num m =>
      obtain ⟨htext, hrest⟩ := List.cons.inj h
      have heq := numberText_inj (hv n (by simp [Value.numbers])) (hw m (by simp [Value.numbers]))
        (Token.numeral.inj htext)
      exact ⟨congrArg Value.num heq, hrest⟩
    | bool b => cases b <;> simp [tokens] at h
    | _ => simp [tokens] at h
  | .str s, w, ts, us, _, _, h => by
    cases w with
    | str t =>
      obtain ⟨htext, hrest⟩ := List.cons.inj h
      exact ⟨congrArg Value.str (Token.string.inj htext), hrest⟩
    | bool b => cases b <;> simp [tokens] at h
    | _ => simp [tokens] at h
  | .arr items, w, ts, us, hv, hw, h => by
    cases w with
    | arr items' =>
      have hitems : tokens.itemTokens items ++ .closeArray :: ts = tokens.itemTokens items' ++ .closeArray :: us := by
        simpa [tokens] using h
      obtain ⟨rfl, rfl⟩ := itemTokens_append_inj hv hw hitems
      exact ⟨rfl, rfl⟩
    | bool b => cases b <;> simp [tokens] at h
    | _ => simp [tokens] at h
  | .obj fields, w, ts, us, hv, hw, h => by
    cases w with
    | obj fields' =>
      have hfields : tokens.fieldTokens fields ++ .closeObject :: ts
          = tokens.fieldTokens fields' ++ .closeObject :: us := by
        simpa [tokens] using h
      obtain ⟨rfl, rfl⟩ := fieldTokens_append_inj hv hw hfields
      exact ⟨rfl, rfl⟩
    | bool b => cases b <;> simp [tokens] at h
    | _ => simp [tokens] at h

/-- The items of an array, up to its end. -/
theorem itemTokens_append_inj : ∀ {vs ws : List Value} {ts us : List Token},
    (∀ n ∈ Value.numbers.itemNumbers vs, n.isInteger = true) →
    (∀ n ∈ Value.numbers.itemNumbers ws, n.isInteger = true) →
    tokens.itemTokens vs ++ .closeArray :: ts = tokens.itemTokens ws ++ .closeArray :: us → vs = ws ∧ ts = us
  | [], [], _, _, _, _, h => ⟨rfl, (List.cons.inj h).2⟩
  | [], w :: ws, _, _, _, _, h => absurd h.symm (itemTokens_append_ne w ws _ _)
  | v :: vs, [], _, _, _, _, h => absurd h (itemTokens_append_ne v vs _ _)
  | [v], [w], _, _, hv, hw, h => by
    obtain ⟨rfl, hrest⟩ := tokens_append_inj (fun n hn => hv n (List.mem_append_left _ hn))
      (fun n hn => hw n (List.mem_append_left _ hn)) h
    exact ⟨rfl, (List.cons.inj hrest).2⟩
  | [v], w :: y :: ws, _, _, hv, hw, h => by
    rw [itemTokens_append] at h
    have hrest := (tokens_append_inj (fun n hn => hv n (List.mem_append_left _ hn))
      (fun n hn => hw n (List.mem_append_left _ hn)) h).2
    cases hrest
  | v :: x :: vs, [w], _, _, hv, hw, h => by
    rw [itemTokens_append] at h
    have hrest := (tokens_append_inj (fun n hn => hv n (List.mem_append_left _ hn))
      (fun n hn => hw n (List.mem_append_left _ hn)) h).2
    cases hrest
  | v :: x :: vs, w :: y :: ws, _, _, hv, hw, h => by
    rw [itemTokens_append, itemTokens_append] at h
    obtain ⟨rfl, hrest⟩ := tokens_append_inj (fun n hn => hv n (List.mem_append_left _ hn))
      (fun n hn => hw n (List.mem_append_left _ hn)) h
    obtain ⟨hitems, rfl⟩ := itemTokens_append_inj (fun n hn => hv n (List.mem_append_right _ hn))
      (fun n hn => hw n (List.mem_append_right _ hn)) (List.cons.inj hrest).2
    exact ⟨congrArg (v :: ·) hitems, rfl⟩

/-- The fields of an object, up to its end. -/
theorem fieldTokens_append_inj : ∀ {fs gs : List (String × Value)} {ts us : List Token},
    (∀ n ∈ Value.numbers.fieldNumbers fs, n.isInteger = true) →
    (∀ n ∈ Value.numbers.fieldNumbers gs, n.isInteger = true) →
    tokens.fieldTokens fs ++ .closeObject :: ts = tokens.fieldTokens gs ++ .closeObject :: us → fs = gs ∧ ts = us
  | [], [], _, _, _, _, h => ⟨rfl, (List.cons.inj h).2⟩
  | [], [_], _, _, _, _, h => nomatch h
  | [], _ :: _ :: _, _, _, _, _, h => nomatch h
  | [_], [], _, _, _, _, h => nomatch h
  | _ :: _ :: _, [], _, _, _, _, h => nomatch h
  | [(k, v)], [(l, w)], _, _, hv, hw, h => by
    obtain ⟨hname, hvalue⟩ := List.cons.inj h
    cases hname
    obtain ⟨rfl, hrest⟩ := tokens_append_inj (fun n hn => hv n (List.mem_append_left _ hn))
      (fun n hn => hw n (List.mem_append_left _ hn)) (List.cons.inj hvalue).2
    exact ⟨rfl, (List.cons.inj hrest).2⟩
  | [(k, v)], (l, w) :: y :: ws, _, _, hv, hw, h => by
    rw [fieldTokens_append] at h
    have hrest := (tokens_append_inj (fun n hn => hv n (List.mem_append_left _ hn))
      (fun n hn => hw n (List.mem_append_left _ hn)) (List.cons.inj (List.cons.inj h).2).2).2
    cases hrest
  | (k, v) :: x :: vs, [(l, w)], _, _, hv, hw, h => by
    rw [fieldTokens_append] at h
    have hrest := (tokens_append_inj (fun n hn => hv n (List.mem_append_left _ hn))
      (fun n hn => hw n (List.mem_append_left _ hn)) (List.cons.inj (List.cons.inj h).2).2).2
    cases hrest
  | (k, v) :: x :: vs, (l, w) :: y :: ws, _, _, hv, hw, h => by
    rw [fieldTokens_append, fieldTokens_append] at h
    obtain ⟨hname, hvalue⟩ := List.cons.inj h
    cases hname
    obtain ⟨rfl, hrest⟩ := tokens_append_inj (fun n hn => hv n (List.mem_append_left _ hn))
      (fun n hn => hw n (List.mem_append_left _ hn)) (List.cons.inj hvalue).2
    obtain ⟨hfields, rfl⟩ := fieldTokens_append_inj (fun n hn => hv n (List.mem_append_right _ hn))
      (fun n hn => hw n (List.mem_append_right _ hn)) (List.cons.inj hrest).2
    exact ⟨congrArg ((k, v) :: ·) hfields, rfl⟩

end

/-- **Values with the same compact text are the same.** -/
theorem compact_inj {v w : Value} (hv : v.Integral) (hw : w.Integral) (h : compact v = compact w) : v = w := by
  have htokens : some (tokens v) = some (tokens w) := by
    rw [← scan_compact hv, ← scan_compact hw, h]
  have hnothing : tokens v ++ [] = tokens w ++ [] := by rw [Option.some.inj htokens]
  exact (tokens_append_inj hv hw hnothing).1

end Json

end Groundwork
