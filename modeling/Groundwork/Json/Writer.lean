import Groundwork.Data.Value
import Groundwork.Decimal.Shortest

/-!
# Writing JSON

`compact` writes a value without any blank; `pretty` gives every item and field a line of its own, two
blanks deeper than the line that opens the array or object.  In strings the quotation mark, the backslash
and the control characters are escaped, nothing else.
-/

namespace Groundwork.Json

/-- A hexadecimal digit. -/
def hexDigit (n : Nat) : Char := Nat.digitChar n

/-- A character within a string. -/
def escapeChar (c : Char) : List Char :=
  if c = '"' then ['\\', '"']
  else if c = '\\' then ['\\', '\\']
  else if c = '\n' then ['\\', 'n']
  else if c = '\r' then ['\\', 'r']
  else if c = '\t' then ['\\', 't']
  else if c = '\x08' then ['\\', 'b']
  else if c = '\x0c' then ['\\', 'f']
  else if c.toNat < 0x20 then
    ['\\', 'u', '0', '0', hexDigit (c.toNat / 16), hexDigit (c.toNat % 16)]
  else [c]

/-- A string with its quotation marks. -/
def quote (s : String) : List Char := '"' :: s.toList.flatMap escapeChar ++ ['"']

/-- A number. -/
def numberText : Number → List Char
  | .int n => Decimal.intText n
  | .float bits => Decimal.floatText bits

/-- The compact text of a value, as characters. -/
def compactChars : Value → List Char
  | .null => ['n', 'u', 'l', 'l']
  | .bool true => ['t', 'r', 'u', 'e']
  | .bool false => ['f', 'a', 'l', 's', 'e']
  | .num n => numberText n
  | .str s => quote s
  | .arr items => '[' :: itemsChars items ++ [']']
  | .obj fields => '{' :: fieldsChars fields ++ ['}']
where
  /-- Items with commas between them. -/
  itemsChars : List Value → List Char
    | [] => []
    | [v] => compactChars v
    | v :: vs => compactChars v ++ ',' :: itemsChars vs
  /-- Fields with commas between them. -/
  fieldsChars : List (String × Value) → List Char
    | [] => []
    | [(k, v)] => quote k ++ ':' :: compactChars v
    | (k, v) :: fields => quote k ++ ':' :: compactChars v ++ ',' :: fieldsChars fields

/-- The compact text of a value. -/
def compact (v : Value) : String := String.ofList (compactChars v)

/-- A line end and the blanks that open a line. -/
def newLine (depth : Nat) : List Char := '\n' :: List.replicate (2 * depth) ' '

/-- The text of a value with a line for every item and field, inside `depth` arrays and objects. -/
def prettyChars (depth : Nat) : Value → List Char
  | .arr [] => ['[', ']']
  | .arr items => '[' :: itemsLines (depth + 1) items ++ newLine depth ++ [']']
  | .obj [] => ['{', '}']
  | .obj fields => '{' :: fieldsLines (depth + 1) fields ++ newLine depth ++ ['}']
  | v => compactChars v
where
  /-- Items, each on a line of its own. -/
  itemsLines (depth : Nat) : List Value → List Char
    | [] => []
    | [v] => newLine depth ++ prettyChars depth v
    | v :: vs => newLine depth ++ prettyChars depth v ++ ',' :: itemsLines depth vs
  /-- Fields, each on a line of its own. -/
  fieldsLines (depth : Nat) : List (String × Value) → List Char
    | [] => []
    | [(k, v)] => newLine depth ++ quote k ++ ':' :: ' ' :: prettyChars depth v
    | (k, v) :: fields =>
        newLine depth ++ quote k ++ ':' :: ' ' :: prettyChars depth v ++ ',' :: fieldsLines depth fields

/-- The text of a value with a line for every item and field. -/
def pretty (v : Value) : String := String.ofList (prettyChars 0 v)

end Groundwork.Json
