import Groundwork.Decimal.Reading
import Groundwork.Json.Reader
import Groundwork.Json.Writer
import Groundwork.Text.Blank

/-!
# Flow documents

The documents of YAML that are written as JSON is.  They differ from documents of JSON in their plain
scalars: an integer must fit a machine word unless it is too large even for two, zero has no sign, any other
number is the nearest floating-point number, and one that is too large for that is a text.  A blank document
is null.

Where a text is asked for, a plain scalar counts as one (`text?`).
-/

namespace Groundwork.Yaml

/-- Whether an integer is one of a size, with a sign if it is negative. -/
def fits (size : Nat) (n : Int) : Bool := -(size / 2 : Int) ≤ n && n < size

/-- The integer that a number without point and exponent spells. -/
def integer (n : Json.Numeral) : Int :=
  let magnitude : Int := Decimal.digitsValue n.whole
  if n.negative then -magnitude else magnitude

/-- The value of a scalar that spells a floating-point number. -/
def floatValue (text : List Char) : Value :=
  match (Decimal.readFloat? text).bind Number.ofFloat? with
  | some x => .num x
  | none => .str (String.ofList text)

/-- The value of a scalar that spells a number. -/
def scalarValue (text : List Char) : Option Value := do
  let n ← Json.Numeral.ofText? text
  match n.fraction, n.exponent with
  | none, none =>
      if fits UInt64.size (integer n) then some (.ofInt (integer n))
      else if fits (UInt64.size * UInt64.size) (integer n) then none
      else some (floatValue text)
  | _, _ => some (floatValue text)

/-- The value of a document, with the fields of every object as they stand in the text. -/
def document (text : String) : Option Value :=
  if text.toList.all Text.isBlank then some .null
  else (Json.scan text.toList).bind (Json.assemble scalarValue)

/-- The value of a document. -/
def read (text : String) : Option Value := (document text).map Value.sorted

/-- The text of a scalar: a string without its quotes, and any other as it is written. -/
def text? : Value → Option String
  | .str s => some s
  | .arr _ | .obj _ => none
  | v => some (Json.compact v)

/-- Lets the fields of these names hold texts where they hold scalars. -/
def spellFields (names : List String) : Value → Value
  | .obj fields => .obj (fields.map fun p =>
      if names.contains p.1 then (p.1, ((text? p.2).map Value.str).getD p.2) else p)
  | v => v

theorem text?_str (s : String) : text? (.str s) = some s := rfl

end Groundwork.Yaml
