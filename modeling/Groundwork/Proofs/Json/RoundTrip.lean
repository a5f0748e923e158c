import Groundwork.Json.Writer
import Groundwork.Proofs.Json.Numerals

/-!
# Written documents, read back

A value is written over several lines and read again in two steps.  The scanner takes the tokens of the value
off the text, whatever tokens it had before; blanks and line ends leave no trace.  A word and a numeral are known
to be over only at the next character, so that the state after a value is one of several, and `Scan.Settled`
says what these have in common.  The assembly then puts the value together from its tokens, whatever arrays and
objects are open around it.

Two things can keep a value from being read back: numbers that are not the nearest ones to their shortest texts,
and more arrays and objects inside of each other than the reader allows.  What is deeper is written all the same: all
that is in front of the deepest part is assembled, and then its array or object cannot be opened any more.

Main statements: `document_pretty`, and `document_pretty_eq`, what is read of any written document whose numbers are
read back.
-/

namespace Groundwork

namespace Value

/-- The numbers in a value. -/
def numbers : Value → List Number
  | .num n => [n]
  | .arr items => itemNumbers items
  | .obj fields => fieldNumbers fields
  | _ => []
where
  /-- The numbers in items. -/
  itemNumbers : List Value → List Number
    | [] => []
    | v :: vs => numbers v ++ itemNumbers vs
  /-- The numbers in fields. -/
  fieldNumbers : List (String × Value) → List Number
    | [] => []
    | (_, v) :: fields => numbers v ++ fieldNumbers fields

/-- How many arrays and objects are inside of each other in a value. -/
def height : Value → Nat
  | .arr items => itemsHeight items + 1
  | .obj fields => fieldsHeight fields + 1
  | _ => 0
where
  /-- The greatest height of items. -/
  itemsHeight : List Value → Nat
    | [] => 0
    | v :: vs => max (height v) (itemsHeight vs)
  /-- The greatest height of fields. -/
  fieldsHeight : List (String × Value) → Nat
    | [] => 0
    | (_, v) :: fields => max (height v) (fieldsHeight fields)

end Value

namespace Json

/-- Whether a number is read back from the text that is written for it. -/
def ReadsBack (n : Number) : Prop := numeralValue (numberText n) = some (.num n)

/-- The tokens of a value. -/
def tokens : Value → List Token
  | .null => [.word ['n', 'u', 'l', 'l']]
  | .bool true => [.word ['t', 'r', 'u', 'e']]
  | .bool false => [.word ['f', 'a', 'l', 's', 'e']]
  | .num n => [.numeral (numberText n)]
  | .str s => [.string s]
  | .arr items => .openArray :: itemTokens items ++ [.closeArray]
  | .obj fields => .openObject :: fieldTokens fields ++ [.closeObject]
where
  /-- The tokens of items. -/
  itemTokens : List Value → List Token
    | [] => []
    | [v] => tokens v
    | v :: vs => tokens v ++ .comma :: itemTokens vs
  /-- The tokens of fields. -/
  fieldTokens : List (String × Value) → List Token
    | [] => []
    | [(k, v)] => .string k :: .colon :: tokens v
    | (k, v) :: fields => .string k :: .colon :: tokens v ++ .comma :: fieldTokens fields

/-! ### Scanning -/

/-- Whether these tokens have been scanned, up to the end of the last one if nothing can prolong it. -/
def Scan.Settled (s : Scan) (done : List Token) : Prop :=
  s.finish = some done ∧
    ∀ c : Char, c.isLower = false → isNumeralChar c = false → s.step c = Scan.start done c

/-- Whether the scanner takes these tokens off a text. -/
def Scans (text : List Char) (ts : List Token) : Prop :=
  ∀ done, ∃ s, text.foldlM Scan.step ⟨done, .gap⟩ = some s ∧ s.Settled (ts.reverse ++ done)

theorem settled_gap (done : List Token) : Scan.Settled ⟨done, .gap⟩ done := ⟨rfl, fun _ _ _ => rfl⟩

theorem scans_nil : Scans [] [] := fun done => ⟨_, rfl, settled_gap done⟩

/-- A character that belongs to no word and no numeral ends the token before it. -/
theorem Scans.append_cons {a b : List Char} {ts us : List Token} {c : Char}
    (ha : Scans a ts) (front : List Token) (hlower : c.isLower = false) (hnumeral : isNumeralChar c = false)
    (hc : ∀ done, Scan.start done c = some ⟨front ++ done, .gap⟩) (hb : Scans b us) :
    Scans (a ++ c :: b) (ts ++ (front.reverse ++ us)) := by
  intro done
  obtain ⟨s, hs, -, hstep⟩ := ha done
  obtain ⟨s', hs', hsettled⟩ := hb (front ++ (ts.reverse ++ done))
  refine ⟨s', ?_, by simpa using hsettled⟩
  rw [List.foldlM_append, hs, Option.bind_eq_bind, Option.bind_some, List.foldlM_cons,
    hstep c hlower hnumeral, hc]
  exact hs'

theorem Scans.mark {a b : List Char} {ts us : List Token} {c : Char} {t : Token} (ha : Scans a ts)
    (hc : mark c = some t) (hb : Scans b us) : Scans (a ++ c :: b) (ts ++ t :: us) := by
  have hplain : c.isLower = false ∧ isNumeralChar c = false := by
    unfold Json.mark at hc
    split at hc <;> first | exact ⟨rfl, rfl⟩ | cases hc
  exact ha.append_cons [t] hplain.1 hplain.2 (fun done => by simp [Scan.start, hc]) hb

theorem Scans.separator {a b : List Char} {ts us : List Token} {c : Char} (ha : Scans a ts)
    (hc : isSeparator c = true) (hb : Scans b us) : Scans (a ++ c :: b) (ts ++ us) := by
  simp only [isSeparator, Bool.or_eq_true, decide_eq_true_eq] at hc
  rcases hc with ((rfl | rfl) | rfl) | rfl <;>
    exact ha.append_cons [] rfl rfl (fun done => rfl) hb

theorem Scans.newLine {a b : List Char} {ts us : List Token} (ha : Scans a ts) (depth : Nat)
    (hb : Scans b us) : Scans (a ++ (newLine depth ++ b)) (ts ++ us) := by
  have hblanks : ∀ k, Scans (List.replicate k ' ' ++ b) us := by
    intro k
    induction k with
    | zero => exact hb
    | succ k ih => exact scans_nil.separator rfl ih
  exact ha.separator rfl (hblanks _)

/-! ### Leaves -/

theorem settled_word (done : List Token) (letters : List Char) :
    Scan.Settled ⟨done, .word letters⟩ (.word letters.reverse :: done) :=
  ⟨rfl, fun c hc _ => by simp [Scan.step, hc]⟩

theorem settled_numeral (done : List Token) (text : List Char) :
    Scan.Settled ⟨done, .numeral text⟩ (.numeral text.reverse :: done) :=
  ⟨rfl, fun c _ hc => by simp [Scan.step, hc]⟩

theorem foldlM_numeral {text : List Char} (h : ∀ c ∈ text, isNumeralChar c = true) (done : List Token)
    (before : List Char) :
    text.foldlM Scan.step ⟨done, .numeral before⟩ = some ⟨done, .numeral (text.reverse ++ before)⟩ := by
  induction text generalizing before with
  | nil => rfl
  | cons c cs ih =>
    have hc := h c List.mem_cons_self
    rw [List.foldlM_cons]
    simpa [Scan.step, hc] using ih (fun d hd => h d (List.mem_cons_of_mem c hd)) (c :: before)

/-- **A numeral is scanned as one token.** -/
theorem scans_numeral {text : List Char} (h : LooksNumeral text) : Scans text [.numeral text] := by
  obtain ⟨⟨c, cs, rfl, hc⟩, hchars⟩ := h
  intro done
  refine ⟨⟨done, .numeral (cs.reverse ++ [c])⟩, ?_, by simpa using settled_numeral done (c :: cs).reverse⟩
  have hstart : Scan.start done c = some ⟨done, .numeral [c]⟩ := by
    have hmark : mark c = none := by
      unfold mark
      split <;> first | rfl | cases hc
    have hquote : c ≠ '"' := by
      rintro rfl
      cases hc
    have hseparator : isSeparator c = false := by
      refine Bool.eq_false_iff.2 fun h => ?_
      simp only [isSeparator, Bool.or_eq_true, decide_eq_true_eq] at h
      rcases h with ((rfl | rfl) | rfl) | rfl <;> cases hc
    simp [Scan.start, hmark, hquote, hseparator, hc]
  rw [List.foldlM_cons]
  change (Scan.start done c >>= _) = _
  rw [hstart]
  exact foldlM_numeral (fun d hd => hchars d (List.mem_cons_of_mem c hd)) done [c]

/-! ### Strings -/

theorem hexNumber_control : ∀ n < 0x20, hexNumber ['0', '0', hexDigit (n / 16), hexDigit (n % 16)] = some n := by
  decide

/-- **A character is read back** from how it is written within a string. -/
theorem foldlM_escapeChar (c : Char) (done : List Token) (text : List Char) :
    (escapeChar c).foldlM Scan.step ⟨done, .string text⟩ = some ⟨done, .string (c :: text)⟩ := by
  unfold escapeChar
  split
  · subst c; rfl
  split
  · subst c; rfl
  split
  · subst c; rfl
  split
  · subst c; rfl
  split
  · subst c; rfl
  split
  · subst c; rfl
  split
  · subst c; rfl
  split
  · rename_i hcontrol
    have hnumber := hexNumber_control c.toNat hcontrol
    have hunit : codeUnit text c.toNat = some (.string (c :: text)) := by
      have hhigh : ¬(0xd800 ≤ c.toNat ∧ c.toNat < 0xdc00) := by omega
      have hlow : ¬(0xdc00 ≤ c.toNat ∧ c.toNat < 0xe000) := by omega
      simp [codeUnit, hhigh, hlow, Char.ofNat_toNat]
    simp [List.foldlM, Scan.step, hnumber, hunit]
  · rename_i hquote hback _ _ _ _ _ hcontrol
    simp [List.foldlM, Scan.step, hquote, hback, hcontrol]

theorem foldlM_escapeChars (cs : List Char) (done : List Token) (text : List Char) :
    (cs.flatMap escapeChar).foldlM Scan.step ⟨done, .string text⟩
      = some ⟨done, .string (cs.reverse ++ text)⟩ := by
  induction cs generalizing text with
  | nil => rfl
  | cons c cs ih =>
    rw [List.flatMap_cons, List.foldlM_append, foldlM_escapeChar]
    simpa using ih (c :: text)

/-- **A quoted text is scanned as one token.** -/
theorem scans_quote (s : String) : Scans (quote s) [.string s] := by
  intro done
  refine ⟨⟨.string s :: done, .gap⟩, ?_, settled_gap _⟩
  rw [quote, List.cons_append, List.foldlM_cons]
  change ((s.toList.flatMap escapeChar ++ ['"']).foldlM Scan.step ⟨done, .string []⟩) = _
  rw [List.foldlM_append, foldlM_escapeChars]
  simp [List.foldlM, Scan.step]

/-! ### Values -/

mutual

/-- **The tokens of a value** are what is scanned of its text. -/
theorem scans_pretty : ∀ (v : Value) (depth : Nat), (∀ n ∈ v.numbers, ReadsBack n) →
    Scans (prettyChars depth v) (tokens v)
  | .null, _, _ => fun done => ⟨_, rfl, settled_word done ['l', 'l', 'u', 'n']⟩
  | .bool true, _, _ => fun done => ⟨_, rfl, settled_word done ['e', 'u', 'r', 't']⟩
  | .bool false, _, _ => fun done => ⟨_, rfl, settled_word done ['e', 's', 'l', 'a', 'f']⟩
  | .num n, _, h => scans_numeral (looksNumeral_of_numeralValue (h n (by simp [Value.numbers])))
  | .str s, _, _ => scans_quote s
  | .arr [], _, _ => scans_nil.mark rfl (scans_nil.mark rfl scans_nil)
  | .arr (v :: vs), depth, h => by
    have hitems := scans_itemsLines (v :: vs) (depth + 1) h
    have hclose : Scans [']'] [.closeArray] := scans_nil.mark rfl scans_nil
    have hall := scans_nil.mark (c := '[') (t := .openArray) rfl (hitems.newLine depth hclose)
    simpa [prettyChars, tokens] using hall
  | .obj [], _, _ => scans_nil.mark rfl (scans_nil.mark rfl scans_nil)
  | .obj (f :: fs), depth, h => by
    have hfields := scans_fieldsLines (f :: fs) (depth + 1) h
    have hclose : Scans ['}'] [.closeObject] := scans_nil.mark rfl scans_nil
    have hall := scans_nil.mark (c := '{') (t := .openObject) rfl (hfields.newLine depth hclose)
    simpa [prettyChars, tokens] using hall

theorem scans_itemsLines : ∀ (vs : List Value) (depth : Nat),
    (∀ n ∈ Value.numbers.itemNumbers vs, ReadsBack n) →
    Scans (prettyChars.itemsLines depth vs) (tokens.itemTokens vs)
  | [], _, _ => scans_nil
  | [v], depth, h => by
    have hv := scans_pretty v depth fun n hn => h n (List.mem_append_left _ hn)
    exact scans_nil.newLine depth hv
  | v :: w :: vs, depth, h => by
    have hv := scans_pretty v depth fun n hn => h n (List.mem_append_left _ hn)
    have hvs := scans_itemsLines (w :: vs) depth fun n hn => h n (List.mem_append_right _ hn)
    have hall := scans_nil.newLine depth (hv.mark (c := ',') rfl hvs)
    rwa [List.nil_append, List.nil_append, ← List.append_assoc] at hall

theorem scans_fieldsLines : ∀ (fs : List (String × Value)) (depth : Nat),
    (∀ n ∈ Value.numbers.fieldNumbers fs, ReadsBack n) →
    Scans (prettyChars.fieldsLines depth fs) (tokens.fieldTokens fs)
  | [], _, _ => scans_nil
  | [(k, v)], depth, h => by
    have hv := scans_pretty v depth fun n hn => h n (List.mem_append_left _ hn)
    have hblank : Scans (' ' :: prettyChars depth v) (tokens v) := scans_nil.separator rfl hv
    have hall := scans_nil.newLine depth ((scans_quote k).mark (c := ':') (t := .colon) rfl hblank)
    simpa [prettyChars.fieldsLines, tokens.fieldTokens] using hall
  | (k, v) :: f :: fs, depth, h => by
    have hv := scans_pretty v depth fun n hn => h n (List.mem_append_left _ hn)
    have hfs := scans_fieldsLines (f :: fs) depth fun n hn => h n (List.mem_append_right _ hn)
    have hblank : Scans (' ' :: (prettyChars depth v ++ ',' :: prettyChars.fieldsLines depth (f :: fs)))
        (tokens v ++ .comma :: tokens.fieldTokens (f :: fs)) :=
      scans_nil.separator rfl (hv.mark rfl hfs)
    have hall := scans_nil.newLine depth ((scans_quote k).mark (c := ':') (t := .colon) rfl hblank)
    simpa [prettyChars.fieldsLines, tokens.fieldTokens] using hall

end

/-- A written value is scanned as its tokens. -/
theorem scan_pretty {v : Value} (h : ∀ n ∈ v.numbers, ReadsBack n) : scan (pretty v).toList = some (tokens v) := by
  obtain ⟨s, hs, hfinish, -⟩ := scans_pretty v 0 h []
  simp [scan, pretty, hs, hfinish]

/-! ### Assembling -/

/-- A value starts with a token that does not close an array. -/
theorem tokens_cons (v : Value) : ∃ t ts, tokens v = t :: ts ∧ t ≠ .closeArray := by
  cases v with
  | bool b => cases b <;> exact ⟨_, _, rfl, by decide⟩
  | _ => exact ⟨_, _, rfl, nofun⟩

/-- The first item of an array is assembled as any other one. -/
theorem foldlM_firstItem (v : Value) (vs : List Value) (us : List Token) (stack : List Open) :
    (tokens.itemTokens (v :: vs) ++ us).foldlM (Assembly.step numeralValue) ⟨stack, .firstItem⟩
      = (tokens.itemTokens (v :: vs) ++ us).foldlM (Assembly.step numeralValue) ⟨stack, .value⟩ := by
  obtain ⟨t, ts, htokens, ht⟩ := tokens_cons v
  have hstep : Assembly.step numeralValue ⟨stack, .firstItem⟩ t = Assembly.step numeralValue ⟨stack, .value⟩ t := by
    cases t <;> first | rfl | exact absurd rfl ht
  cases vs <;> simp only [tokens.itemTokens, htokens, List.cons_append, List.foldlM_cons, hstep]

/-- The first name in an object is assembled as any other one. -/
theorem foldlM_firstKey (f : String × Value) (fs : List (String × Value)) (us : List Token) (stack : List Open) :
    (tokens.fieldTokens (f :: fs) ++ us).foldlM (Assembly.step numeralValue) ⟨stack, .firstKey⟩
      = (tokens.fieldTokens (f :: fs) ++ us).foldlM (Assembly.step numeralValue) ⟨stack, .key⟩ := by
  cases fs <;> rfl

/-- Whether a value is assembled from these tokens, inside of so many arrays and objects. -/
def Assembles (ts : List Token) (v : Value) (stack : List Open) : Prop :=
  ∀ us, (ts ++ us).foldlM (Assembly.step numeralValue) ⟨stack, .value⟩
    = us.foldlM (Assembly.step numeralValue) ⟨stack, .next v⟩

mutual

/-- **A value is assembled** from its tokens. -/
theorem assembles_tokens : ∀ (v : Value) (stack : List Open), (∀ n ∈ v.numbers, ReadsBack n) →
    stack.length + v.height ≤ maxDepth → Assembles (tokens v) v stack
  | .null, _, _, _ => fun _ => rfl
  | .bool true, _, _, _ => fun _ => rfl
  | .bool false, _, _, _ => fun _ => rfl
  | .num n, stack, h, _ => fun us => by
    have hn : numeralValue (numberText n) = some (.num n) := h n (by simp [Value.numbers])
    simp [tokens, Assembly.step, Assembly.begin, hn]
  | .str s, _, _, _ => fun _ => rfl
  | .arr items, stack, h, hdepth => fun us => by
    have hopen : stack.length < maxDepth := by simp only [Value.height] at hdepth; omega
    cases items with
    | nil => simp [tokens, tokens.itemTokens, Assembly.step, Assembly.begin, hopen]
    | cons v vs =>
      have hitems := assembles_itemTokens (v :: vs) (List.cons_ne_nil v vs) [] stack h (by simp only [Value.height] at hdepth; omega) us
      simp only [tokens, List.cons_append, List.append_assoc, List.foldlM_cons, Assembly.step, Assembly.begin,
        if_pos hopen, Option.bind_eq_bind, Option.bind_some, List.nil_append]
      rw [foldlM_firstItem, hitems]
      rfl
  | .obj fields, stack, h, hdepth => fun us => by
    have hopen : stack.length < maxDepth := by simp only [Value.height] at hdepth; omega
    cases fields with
    | nil => simp [tokens, tokens.fieldTokens, Assembly.step, Assembly.begin, hopen]
    | cons f fs =>
      have hfields := assembles_fieldTokens (f :: fs) (List.cons_ne_nil f fs) [] stack h (by simp only [Value.height] at hdepth; omega) us
      simp only [tokens, List.cons_append, List.append_assoc, List.foldlM_cons, Assembly.step, Assembly.begin,
        if_pos hopen, Option.bind_eq_bind, Option.bind_some, List.nil_append]
      rw [foldlM_firstKey, hfields]
      rfl

/-- Items behind those that are there already, up to the end of the array. -/
theorem assembles_itemTokens : ∀ (items : List Value), items ≠ [] → ∀ (before : List Value) (stack : List Open),
    (∀ n ∈ Value.numbers.itemNumbers items, ReadsBack n) →
    stack.length + 1 + Value.height.itemsHeight items ≤ maxDepth → ∀ us,
    (tokens.itemTokens items ++ Token.closeArray :: us).foldlM (Assembly.step numeralValue)
        ⟨.array before :: stack, .value⟩
      = us.foldlM (Assembly.step numeralValue) ⟨stack, .next (.arr (before.reverse ++ items))⟩
  | [], hne, _, _, _, _, _ => absurd rfl hne
  | [v], _, before, stack, h, hdepth, us => by
    have hv := assembles_tokens v (.array before :: stack) (fun n hn => h n (List.mem_append_left _ hn))
      (by simp only [Value.height.itemsHeight, List.length_cons] at hdepth ⊢; omega) (.closeArray :: us)
    rw [tokens.itemTokens, hv]
    simp [Assembly.step, Assembly.continue]
  | v :: w :: vs, _, before, stack, h, hdepth, us => by
    have hv := assembles_tokens v (.array before :: stack) (fun n hn => h n (List.mem_append_left _ hn))
      (by simp only [Value.height.itemsHeight, List.length_cons] at hdepth ⊢; omega)
      (.comma :: (tokens.itemTokens (w :: vs) ++ .closeArray :: us))
    have hvs := assembles_itemTokens (w :: vs) (List.cons_ne_nil w vs) (v :: before) stack
      (fun n hn => h n (List.mem_append_right _ hn))
      (by simp only [Value.height.itemsHeight] at hdepth ⊢; omega) us
    simp only [tokens.itemTokens, List.append_assoc, List.cons_append]
    rw [hv]
    simpa [Assembly.step, Assembly.continue] using hvs

/-- Fields behind those that are there already, up to the end of the object. -/
theorem assembles_fieldTokens : ∀ (fields : List (String × Value)), fields ≠ [] →
    ∀ (before : List (String × Value)) (stack : List Open),
    (∀ n ∈ Value.numbers.fieldNumbers fields, ReadsBack n) →
    stack.length + 1 + Value.height.fieldsHeight fields ≤ maxDepth → ∀ us,
    (tokens.fieldTokens fields ++ Token.closeObject :: us).foldlM (Assembly.step numeralValue)
        ⟨.object before "" :: stack, .key⟩
      = us.foldlM (Assembly.step numeralValue) ⟨stack, .next (.obj (before.reverse ++ fields))⟩
  | [], hne, _, _, _, _, _ => absurd rfl hne
  | [(k, v)], _, before, stack, h, hdepth, us => by
    have hv := assembles_tokens v (.object before k :: stack) (fun n hn => h n (List.mem_append_left _ hn))
      (by simp only [Value.height.fieldsHeight, List.length_cons] at hdepth ⊢; omega) (.closeObject :: us)
    simp only [tokens.fieldTokens, List.cons_append, List.foldlM_cons]
    simp only [Assembly.step, nameField, Option.bind_eq_bind, Option.bind_some]
    rw [hv]
    simp [Assembly.step, Assembly.continue]
  | (k, v) :: f :: fs, _, before, stack, h, hdepth, us => by
    have hv := assembles_tokens v (.object before k :: stack) (fun n hn => h n (List.mem_append_left _ hn))
      (by simp only [Value.height.fieldsHeight, List.length_cons] at hdepth ⊢; omega)
      (.comma :: (tokens.fieldTokens (f :: fs) ++ .closeObject :: us))
    have hfs := assembles_fieldTokens (f :: fs) (List.cons_ne_nil f fs) ((k, v) :: before) stack
      (fun n hn => h n (List.mem_append_right _ hn))
      (by simp only [Value.height.fieldsHeight] at hdepth ⊢; omega) us
    simp only [tokens.fieldTokens, List.cons_append, List.append_assoc, List.foldlM_cons]
    simp only [Assembly.step, nameField, Option.bind_eq_bind, Option.bind_some]
    rw [hv]
    simpa [Assembly.step, Assembly.continue] using hfs

end

/-- **A written document is read back**, if its numbers are and it is not too deep. -/
theorem document_pretty {v : Value} (hnumbers : ∀ n ∈ v.numbers, ReadsBack n) (hdepth : v.height ≤ maxDepth) :
    document (pretty v) = some v := by
  have hassemble : assemble numeralValue (tokens v) = some v := by
    have hall := assembles_tokens v [] hnumbers (by simpa using hdepth) []
    rw [List.append_nil] at hall
    simp [assemble, hall]
  simp [document, scan_pretty hnumbers, hassemble]

/-! ### Documents that are too deep -/

/-- An array or object that is opened when no more may be open ends the assembly. -/
theorem foldlM_of_full {stack : List Open} (h : stack.length = maxDepth) {t : Token}
    (ht : t = .openArray ∨ t = .openObject) (us : List Token) :
    (t :: us).foldlM (Assembly.step numeralValue) ⟨stack, .value⟩ = none := by
  rcases ht with rfl | rfl <;> simp [Assembly.step, Assembly.begin, h]

mutual

/-- **A value that is too deep is not assembled** from its tokens, whatever follows them. -/
theorem tokens_too_deep : ∀ (v : Value) (stack : List Open), (∀ n ∈ v.numbers, ReadsBack n) →
    stack.length ≤ maxDepth → maxDepth < stack.length + v.height → ∀ us,
    (tokens v ++ us).foldlM (Assembly.step numeralValue) ⟨stack, .value⟩ = none
  | .null, _, _, hopen, hdeep, _ => absurd hdeep (Nat.not_lt.2 hopen)
  | .bool _, _, _, hopen, hdeep, _ => absurd hdeep (Nat.not_lt.2 hopen)
  | .num _, _, _, hopen, hdeep, _ => absurd hdeep (Nat.not_lt.2 hopen)
  | .str _, _, _, hopen, hdeep, _ => absurd hdeep (Nat.not_lt.2 hopen)
  | .arr items, stack, h, hopen, hdeep, us => by
    rcases Nat.eq_or_lt_of_le hopen with hfull | hroom
    · exact foldlM_of_full hfull (.inl rfl) _
    cases items with
    | nil =>
      simp only [Value.height, Value.height.itemsHeight] at hdeep
      omega
    | cons v vs =>
      have hitems := itemTokens_too_deep (v :: vs) [] stack h hroom (by simp only [Value.height] at hdeep; omega) us
      simp only [tokens, List.cons_append, List.append_assoc, List.foldlM_cons, Assembly.step, Assembly.begin,
        if_pos hroom, Option.bind_eq_bind, Option.bind_some, List.nil_append]
      rw [foldlM_firstItem, hitems]
  | .obj fields, stack, h, hopen, hdeep, us => by
    rcases Nat.eq_or_lt_of_le hopen with hfull | hroom
    · exact foldlM_of_full hfull (.inr rfl) _
    cases fields with
    | nil =>
      simp only [Value.height, Value.height.fieldsHeight] at hdeep
      omega
    | cons f fs =>
      have hfields := fieldTokens_too_deep (f :: fs) [] stack h hroom (by simp only [Value.height] at hdeep; omega) us
      simp only [tokens, List.cons_append, List.append_assoc, List.foldlM_cons, Assembly.step, Assembly.begin,
        if_pos hroom, Option.bind_eq_bind, Option.bind_some, List.nil_append]
      rw [foldlM_firstKey, hfields]

/-- Items of which one is too deep are not assembled: those in front of it are, and it is not. -/
theorem itemTokens_too_deep : ∀ (items before : List Value) (stack : List Open),
    (∀ n ∈ Value.numbers.itemNumbers items, ReadsBack n) → stack.length < maxDepth →
    maxDepth < stack.length + 1 + Value.height.itemsHeight items → ∀ us,
    (tokens.itemTokens items ++ Token.closeArray :: us).foldlM (Assembly.step numeralValue)
        ⟨.array before :: stack, .value⟩ = none
  | [], _, _, _, hroom, hdeep, _ => by
    simp only [Value.height.itemsHeight] at hdeep
    omega
  | [v], before, stack, h, hroom, hdeep, us => by
    have hnumbers : ∀ n ∈ v.numbers, ReadsBack n := fun n hn => h n (List.mem_append_left _ hn)
    refine tokens_too_deep v (.array before :: stack) hnumbers ?_ ?_ (.closeArray :: us) <;>
      simp only [Value.height.itemsHeight, List.length_cons] at hdeep ⊢ <;> omega
  | v :: w :: vs, before, stack, h, hroom, hdeep, us => by
    have hnumbers : ∀ n ∈ v.numbers, ReadsBack n := fun n hn => h n (List.mem_append_left _ hn)
    have hopen : (Open.array before :: stack).length ≤ maxDepth := hroom
    simp only [tokens.itemTokens, List.append_assoc, List.cons_append]
    by_cases hv : stack.length + 1 + v.height ≤ maxDepth
    · have hrest := itemTokens_too_deep (w :: vs) (v :: before) stack (fun n hn => h n (List.mem_append_right _ hn))
        hroom (by simp only [Value.height.itemsHeight] at hdeep ⊢; omega) us
      rw [assembles_tokens v (.array before :: stack) hnumbers hv]
      simpa [Assembly.step, Assembly.continue] using hrest
    · exact tokens_too_deep v (.array before :: stack) hnumbers hopen (Nat.lt_of_not_le hv) _

/-- Fields of which one is too deep are not assembled. -/
theorem fieldTokens_too_deep : ∀ (fields before : List (String × Value)) (stack : List Open),
    (∀ n ∈ Value.numbers.fieldNumbers fields, ReadsBack n) → stack.length < maxDepth →
    maxDepth < stack.length + 1 + Value.height.fieldsHeight fields → ∀ us,
    (tokens.fieldTokens fields ++ Token.closeObject :: us).foldlM (Assembly.step numeralValue)
        ⟨.object before "" :: stack, .key⟩ = none
  | [], _, _, _, hroom, hdeep, _ => by
    simp only [Value.height.fieldsHeight] at hdeep
    omega
  | [(k, v)], before, stack, h, hroom, hdeep, us => by
    have hnumbers : ∀ n ∈ v.numbers, ReadsBack n := fun n hn => h n (List.mem_append_left _ hn)
    simp only [tokens.fieldTokens, List.cons_append, List.foldlM_cons]
    simp only [Assembly.step, nameField, Option.bind_eq_bind, Option.bind_some]
    refine tokens_too_deep v (.object before k :: stack) hnumbers ?_ ?_ (.closeObject :: us) <;>
      simp only [Value.height.fieldsHeight, List.length_cons] at hdeep ⊢ <;> omega
  | (k, v) :: f :: fs, before, stack, h, hroom, hdeep, us => by
    have hnumbers : ∀ n ∈ v.numbers, ReadsBack n := fun n hn => h n (List.mem_append_left _ hn)
    have hopen : (Open.object before k :: stack).length ≤ maxDepth := hroom
    simp only [tokens.fieldTokens, List.cons_append, List.append_assoc, List.foldlM_cons]
    simp only [Assembly.step, nameField, Option.bind_eq_bind, Option.bind_some]
    by_cases hv : stack.length + 1 + v.height ≤ maxDepth
    · have hrest := fieldTokens_too_deep (f :: fs) ((k, v) :: before) stack
        (fun n hn => h n (List.mem_append_right _ hn)) hroom
        (by simp only [Value.height.fieldsHeight] at hdeep ⊢; omega) us
      rw [assembles_tokens v (.object before k :: stack) hnumbers hv]
      simpa [Assembly.step, Assembly.continue] using hrest
    · exact tokens_too_deep v (.object before k :: stack) hnumbers hopen (Nat.lt_of_not_le hv) _

end

/-- **A written document is read back exactly if it is not too deep**; else nothing is read. -/
theorem document_pretty_eq {v : Value} (h : ∀ n ∈ v.numbers, ReadsBack n) :
    document (pretty v) = if v.height ≤ maxDepth then some v else none := by
  split
  · rename_i hdepth
    exact document_pretty h hdepth
  · rename_i hdepth
    have hnone := tokens_too_deep v [] h (Nat.zero_le _) (by simpa using hdepth) []
    rw [List.append_nil] at hnone
    simp [document, scan_pretty h, assemble, hnone]

end Json

end Groundwork
