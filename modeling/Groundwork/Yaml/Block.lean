import Groundwork.Decimal.Reading
import Groundwork.Json.Writer
import Groundwork.Text.Search

/-!
# Writing YAML

Documents in block style: every field and item has a line of its own, what is inside an object stands two
blanks further in, and the items of a list that belongs to a field stand below its name.

A text is written plain where it can be told from everything else; else between apostrophes, between
quotation marks if it has characters that must be escaped, or as a block of lines if it has several.

Main statements: a text that looks like something else is never written plain (`style_ne_plain`).
-/

namespace Groundwork.Yaml

/-! ### Texts -/

/-- Words that readers of YAML may take for something other than a text. -/
def reservedWords : List String :=
  ["", "~", "null", "true", "false", "y", "n", "yes", "no", "on", "off", ".inf", "+.inf", "-.inf", ".nan"]

/-- Whether characters are digits of a base after a mark. -/
def isMarkedNumber (s : List Char) : Bool :=
  let isHex (c : Char) : Bool := c.isDigit || ('a' ≤ c.toLower && c.toLower ≤ 'f')
  match s with
  | '0' :: 'x' :: ds => !ds.isEmpty && ds.all isHex
  | '0' :: 'o' :: ds => !ds.isEmpty && ds.all fun c => '0' ≤ c && c ≤ '7'
  | '0' :: 'b' :: ds => !ds.isEmpty && ds.all fun c => c = '0' || c = '1'
  | _ => false

/-- Whether a text looks like a number. -/
def looksNumeric (s : List Char) : Bool :=
  let unsigned := match s with
    | '+' :: rest | '-' :: rest => rest
    | s => s
  isMarkedNumber unsigned || (!unsigned.isEmpty && unsigned.all Char.isDigit)
    || (Decimal.readFloat? s).any Float.isFinite

/-- Whether a text looks like something other than a text. -/
def isAmbiguous (s : List Char) : Bool :=
  reservedWords.contains ((String.ofList s).map Char.toLower) || looksNumeric s

/-- Whether a character is shown as it is. -/
def isPrintable (c : Char) : Bool :=
  let n := c.toNat
  c = '\n' || (0x20 ≤ n && n ≤ 0x7e) || (0xa0 ≤ n && n ≠ 0xfeff && n ≠ 0xfffe && n ≠ 0xffff)

/-- Whether a line of text would be taken for the beginning of something else. -/
def opensStructure : List Char → Bool
  | [] => false
  | c :: rest =>
      let blankFollows := rest.head?.all (· = ' ')
      "#,[]\x7b\x7d&*!|>'\"%@\x60".toList.contains c || ("?:-".toList.contains c && blankFollows)
        || Text.startsWith "---".toList (c :: rest) || Text.startsWith "...".toList (c :: rest)

/-- Whether a line of text has a mark in it that would end it: a colon before a blank or at the end, or a
number sign after a blank. -/
def holdsMark : List Char → Bool
  | ':' :: ' ' :: _ | [':'] | ' ' :: '#' :: _ => true
  | _ :: rest => holdsMark rest
  | [] => false

/-- The ways of writing a text. -/
inductive TextStyle where
  | plain | apostrophes | quotation | lines
  deriving DecidableEq, Repr, Inhabited

/-- Whether a text has blanks at an end, which only marks around it can keep. -/
def hasOuterBlank (s : List Char) : Bool := s.head? = some ' ' || s.getLast? = some ' '

/-- How to write a text. -/
def style (s : List Char) : TextStyle :=
  if !s.all isPrintable then .quotation
  else if s.contains '\n' then
    if s.getLast? = some ' ' || Text.contains [' ', '\n'] s then .quotation else .lines
  else if isAmbiguous s || hasOuterBlank s || opensStructure s || holdsMark s then .apostrophes
  else .plain

/-- A number in capital hexadecimal digits, with zeros in front. -/
def hexPadded (width n : Nat) : List Char :=
  let digits := (Nat.toDigits 16 n).map Char.toUpper
  List.replicate (width - digits.length) '0' ++ digits

/-- A character between quotation marks. -/
def escape (c : Char) : List Char :=
  if c = '"' || c = '\\' then ['\\', c]
  else if isPrintable c && c ≠ '\n' then [c]
  else if c = '\n' then ['\\', 'n']
  else if c = '\t' then ['\\', 't']
  else if c = '\r' then ['\\', 'r']
  else if c.toNat ≤ 0xff then '\\' :: 'x' :: hexPadded 2 c.toNat
  else if c.toNat ≤ 0xffff then '\\' :: 'u' :: hexPadded 4 c.toNat
  else '\\' :: 'U' :: hexPadded 8 c.toNat

/-- A text between apostrophes. -/
def inApostrophes (s : List Char) : List Char :=
  '\'' :: s.flatMap (fun c => if c = '\'' then [c, c] else [c]) ++ ['\'']

/-- A text between quotation marks. -/
def inQuotation (s : List Char) : List Char := '"' :: s.flatMap escape ++ ['"']

/-- A block of lines: its head, which tells what becomes of the line ends at its end, and the lines. -/
def blockLines (s : List Char) : List (List Char) :=
  let indented := s.head? = some ' ' || s.head? = some '\n'
  let ended := s.getLast? = some '\n'
  let keep := s = ['\n'] || Text.endsWith ['\n', '\n'] s
  let head := '|' :: (if indented then ['2'] else []) ++ (if keep then ['+'] else if ended then [] else ['-'])
  let lines := Text.splitOn '\n' s
  head :: (if ended then lines.dropLast else lines)

/-- The lines of a text. -/
def textLines (s : List Char) : List (List Char) :=
  match style s with
  | .plain => [s]
  | .apostrophes => [inApostrophes s]
  | .quotation => [inQuotation s]
  | .lines => blockLines s

/-- The name of a field. -/
def fieldName (k : String) : List Char :=
  match style k.toList with
  | .plain => k.toList
  | .apostrophes => inApostrophes k.toList
  | .quotation | .lines => inQuotation k.toList

/-! ### Values -/

/-- A line further in; an empty line stays empty. -/
def indent (line : List Char) : List Char := if line.isEmpty then [] else ' ' :: ' ' :: line

/-- Lines of which the first stands behind a mark and the others further in. -/
def behind (mark : List Char) : List (List Char) → List (List Char)
  | [] => []
  | first :: rest => (mark ++ first) :: rest.map indent

/-- The lines of a value. -/
def valueLines : Value → List (List Char)
  | .str s => textLines s.toList
  | .arr (v :: vs) => itemLines (v :: vs)
  | .obj (p :: ps) => fieldLines (p :: ps)
  | v => [Json.compactChars v]
where
  /-- The lines of items. -/
  itemLines : List Value → List (List Char)
    | [] => []
    | v :: vs => behind ['-', ' '] (valueLines v) ++ itemLines vs
  /-- The lines of fields. -/
  fieldLines : List (String × Value) → List (List Char)
    | [] => []
    | (k, .arr (v :: vs)) :: ps => (fieldName k ++ [':']) :: itemLines (v :: vs) ++ fieldLines ps
    | (k, .obj (q :: qs)) :: ps => (fieldName k ++ [':']) :: (fieldLines (q :: qs)).map indent ++ fieldLines ps
    | (k, v) :: ps => behind (fieldName k ++ [':', ' ']) (valueLines v) ++ fieldLines ps

/-- The text of a document. -/
def block (v : Value) : String := String.join ((valueLines v).map fun line => String.ofList (line ++ ['\n']))

theorem style_ne_plain {s : List Char} (h : isAmbiguous s = true) : style s ≠ .plain := by
  unfold style
  split
  · decide
  · split
    · split <;> decide
    · simp [h]

end Groundwork.Yaml
