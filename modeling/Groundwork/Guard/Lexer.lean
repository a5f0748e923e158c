import Groundwork.Guard.Error
import Groundwork.Path
import Groundwork.Text.Blank

/-!
# Reading the tokens of a guard

Blanks separate tokens and have no other meaning.  Operators are read as long as possible, and a third
equals sign after a test for equality belongs to it.  In strings a backslash makes the next character
literal.  A number is a digit, or a minus sign before a digit, followed by digits and by points before
digits.
-/

namespace Groundwork.Guard

/-- The rest of a string after its opening mark: the content, and what follows the closing mark. -/
def takeString (quote : Char) : List Char → Option (List Char × List Char)
  | [] => none
  | ['\\'] => none
  | '\\' :: c :: cs => (takeString quote cs).map fun p => (c :: p.1, p.2)
  | c :: cs => if c = quote then some ([], cs) else (takeString quote cs).map fun p => (c :: p.1, p.2)

/-- The digits of a number, with points that stand before digits, and what follows. -/
def takeNumber : List Char → List Char × List Char
  | '.' :: d :: cs =>
      if d.isDigit then let (ds, rest) := takeNumber (d :: cs); ('.' :: ds, rest)
      else ([], '.' :: d :: cs)
  | c :: cs => if c.isDigit then let (ds, rest) := takeNumber cs; (c :: ds, rest) else ([], c :: cs)
  | [] => ([], [])

/-- The operator or mark at the start of a text, and what follows it. -/
def takeMark : List Char → Option (Token × List Char)
  | '.' :: cs => some (.dot, cs)
  | ',' :: cs => some (.comma, cs)
  | '(' :: cs => some (.leftParen, cs)
  | ')' :: cs => some (.rightParen, cs)
  | '[' :: cs => some (.leftBracket, cs)
  | ']' :: cs => some (.rightBracket, cs)
  | '&' :: '&' :: cs => some (.and, cs)
  | '|' :: '|' :: cs => some (.or, cs)
  | '=' :: '=' :: '=' :: cs => some (.eq, cs)
  | '=' :: '=' :: cs => some (.eq, cs)
  | '!' :: '=' :: '=' :: cs => some (.ne, cs)
  | '!' :: '=' :: cs => some (.ne, cs)
  | '!' :: cs => some (.not, cs)
  | '<' :: '=' :: cs => some (.le, cs)
  | '<' :: cs => some (.lt, cs)
  | '>' :: '=' :: cs => some (.ge, cs)
  | '>' :: cs => some (.gt, cs)
  | _ => none

/-- Whether a text starts with a number. -/
def startsNumber : List Char → Bool
  | '-' :: d :: _ => d.isDigit
  | d :: _ => d.isDigit
  | [] => false

/-- Reads the token or blank that a text starts with. -/
def next (c : Char) (cs : List Char) : Except SyntaxFault (Option Token × List Char) :=
  if Text.isBlank c then .ok (none, cs)
  else match takeMark (c :: cs) with
    | some (t, rest) => .ok (some t, rest)
    | none =>
        if c = '"' ∨ c = '\'' then
          match takeString c cs with
          | some (s, rest) => .ok (some (.str (String.ofList s)), rest)
          | none => .error .unterminatedString
        else if startsNumber (c :: cs) then
          let digits := takeNumber cs
          .ok (some (.number (String.ofList (c :: digits.1))), digits.2)
        else if Path.isWordStart c then
          .ok (some (.word (String.ofList (c :: cs.takeWhile Path.isWordChar))),
            cs.dropWhile Path.isWordChar)
        else .error (.unexpectedCharacter c)

theorem takeString_length {quote : Char} {s a b : List Char} (h : takeString quote s = some (a, b)) :
    b.length ≤ s.length := by
  fun_induction takeString quote s generalizing a <;> grind [Option.map_eq_some_iff]

theorem takeNumber_length (s : List Char) : (takeNumber s).2.length ≤ s.length := by
  fun_induction takeNumber s <;> grind

theorem takeMark_length {s : List Char} {t : Token} {rest : List Char}
    (h : takeMark s = some (t, rest)) : rest.length < s.length := by
  unfold takeMark at h
  split at h <;> grind

theorem next_length {c : Char} {cs : List Char} {t : Option Token} {rest : List Char}
    (h : next c cs = .ok (t, rest)) : rest.length ≤ cs.length := by
  unfold next at h
  repeat' split at h
  all_goals cases h
  · exact Nat.le_refl _
  · rename_i hm
    have := takeMark_length hm
    simp only [List.length_cons] at this
    omega
  · rename_i hs
    exact takeString_length hs
  · exact takeNumber_length cs
  · exact (List.dropWhile_suffix Path.isWordChar).length_le

/-- The tokens of a text. -/
def tokens : List Char → Except SyntaxFault (List Token)
  | [] => .ok []
  | c :: cs =>
      match _h : next c cs with
      | .error e => .error e
      | .ok (t, rest) =>
          match tokens rest with
          | .error e => .error e
          | .ok ts => .ok (t.toList ++ ts)
termination_by cs => cs.length
decreasing_by
  have := next_length _h
  simp only [List.length_cons]
  omega

end Groundwork.Guard
