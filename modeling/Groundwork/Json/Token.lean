/-!
# JSON tokens

The lexical level of JSON: marks, words, numerals and strings, separated by blanks (space, tab and line
ends).  A string may not hold control characters; its escapes of surrogates must come in pairs.

The scanner reads one character at a time: `Scan.step` is its only rule, and `scan` folds it over a text.
-/

namespace Groundwork.Json

/-- A token of a JSON text. -/
inductive Token where
  | openArray | closeArray | openObject | closeObject | comma | colon
  /-- Letters: the spelling of `null`, `true` and `false`. -/
  | word (letters : List Char)
  /-- The characters of a numeral. -/
  | numeral (text : List Char)
  | string (s : String)
  deriving DecidableEq, Repr

/-- The value of a hexadecimal digit. -/
def hexValue (c : Char) : Option Nat :=
  if '0' ≤ c ∧ c ≤ '9' then some (c.toNat - '0'.toNat)
  else if 'a' ≤ c ∧ c ≤ 'f' then some (c.toNat - 'a'.toNat + 10)
  else if 'A' ≤ c ∧ c ≤ 'F' then some (c.toNat - 'A'.toNat + 10)
  else none

/-- The number of a run of hexadecimal digits. -/
def hexNumber (digits : List Char) : Option Nat :=
  digits.foldlM (fun n c => (hexValue c).map (16 * n + ·)) 0

/-- The character that a letter after a backslash stands for. -/
def simpleEscape : Char → Option Char
  | '"' => some '"'
  | '\\' => some '\\'
  | '/' => some '/'
  | 'b' => some '\x08'
  | 'f' => some '\x0c'
  | 'n' => some '\n'
  | 'r' => some '\r'
  | 't' => some '\t'
  | _ => none

/-- The characters of which numerals consist. -/
def isNumeralChar (c : Char) : Bool :=
  c.isDigit || c = '-' || c = '+' || c = '.' || c = 'e' || c = 'E'

/-- The characters that may stand between tokens. -/
def isSeparator (c : Char) : Bool := c = ' ' || c = '\n' || c = '\t' || c = '\r'

/-- The token of a mark. -/
def mark : Char → Option Token
  | '[' => some .openArray
  | ']' => some .closeArray
  | '{' => some .openObject
  | '}' => some .closeObject
  | ',' => some .comma
  | ':' => some .colon
  | _ => none

/-- What the scanner is in the middle of; the characters read so far stand in reverse. -/
inductive Within where
  | gap
  | word (letters : List Char)
  | numeral (text : List Char)
  | string (text : List Char)
  /-- After a backslash. -/
  | escape (text : List Char)
  /-- Within the four digits of an escape. -/
  | code (text digits : List Char)
  /-- After the first half of a surrogate pair. -/
  | half (text : List Char) (high : Nat)
  /-- After the backslash of the second half. -/
  | halfEscape (text : List Char) (high : Nat)
  /-- Within the four digits of the second half. -/
  | halfCode (text : List Char) (high : Nat) (digits : List Char)
  deriving DecidableEq, Repr

/-- The state of the scanner: the tokens so far, in reverse, and the unfinished one. -/
structure Scan where
  done : List Token
  within : Within
  deriving DecidableEq, Repr

/-- The tokens with the unfinished one completed; a string must have been closed. -/
def Scan.finish (s : Scan) : Option (List Token) :=
  match s.within with
  | .gap => some s.done
  | .word letters => some (.word letters.reverse :: s.done)
  | .numeral text => some (.numeral text.reverse :: s.done)
  | _ => none

/-- The step at a character between tokens. -/
def Scan.start (done : List Token) (c : Char) : Option Scan :=
  match mark c with
  | some t => some ⟨t :: done, .gap⟩
  | none =>
      if c = '"' then some ⟨done, .string []⟩
      else if isSeparator c then some ⟨done, .gap⟩
      else if c.isDigit || c = '-' then some ⟨done, .numeral [c]⟩
      else if c.isLower then some ⟨done, .word [c]⟩
      else none

/-- What follows four digits of an escape. -/
def codeUnit (text : List Char) (n : Nat) : Option Within :=
  if 0xd800 ≤ n ∧ n < 0xdc00 then some (.half text n)
  else if 0xdc00 ≤ n ∧ n < 0xe000 then none
  else some (.string (Char.ofNat n :: text))

/-- What follows the four digits of the second half of a pair. -/
def secondUnit (text : List Char) (high n : Nat) : Option Within :=
  if 0xdc00 ≤ n ∧ n < 0xe000 then
    some (.string (Char.ofNat (0x10000 + (high - 0xd800) * 0x400 + (n - 0xdc00)) :: text))
  else none

/-- Reads one character. -/
def Scan.step (s : Scan) (c : Char) : Option Scan :=
  let within (w : Within) : Scan := ⟨s.done, w⟩
  match s.within with
  | .gap => Scan.start s.done c
  | .word l =>
      if c.isLower then within (.word (c :: l)) else Scan.start (.word l.reverse :: s.done) c
  | .numeral t =>
      if isNumeralChar c then within (.numeral (c :: t))
      else Scan.start (.numeral t.reverse :: s.done) c
  | .string t =>
      if c = '"' then some ⟨.string (String.ofList t.reverse) :: s.done, .gap⟩
      else if c = '\\' then within (.escape t)
      else if c.toNat < 0x20 then none
      else within (.string (c :: t))
  | .escape t =>
      if c = 'u' then within (.code t []) else (simpleEscape c).map fun e => within (.string (e :: t))
  | .code t digits =>
      if digits.length < 3 then within (.code t (digits ++ [c]))
      else (hexNumber (digits ++ [c])).bind fun n => (codeUnit t n).map within
  | .half t high => if c = '\\' then within (.halfEscape t high) else none
  | .halfEscape t high => if c = 'u' then within (.halfCode t high []) else none
  | .halfCode t high digits =>
      if digits.length < 3 then within (.halfCode t high (digits ++ [c]))
      else (hexNumber (digits ++ [c])).bind fun n => (secondUnit t high n).map within

/-- The tokens of a text; `none` if a character or an escape is out of place. -/
def scan (text : List Char) : Option (List Token) :=
  (text.foldlM Scan.step ⟨[], .gap⟩).bind fun s => s.finish.map List.reverse

end Groundwork.Json
