import Groundwork.Data.Value
import Groundwork.Decimal.Reading

/-!
# Numerals

The grammar of JSON numerals and the numbers they spell.  A numeral without fraction and exponent is an
integer if it lies between `-2^63` and `2^64 - 1`, except that `-0` is the floating-point zero of negative
sign; every other numeral is a floating-point number, read by `Decimal.scaled`.
-/

namespace Groundwork.Json

/-- The parts of a numeral. -/
structure Numeral where
  negative : Bool
  whole : List Char
  fraction : Option (List Char)
  exponent : Option Int
  deriving DecidableEq, Repr

namespace Numeral

/-- One or more digits, and what follows them. -/
def takeDigits (cs : List Char) : Option (List Char × List Char) :=
  let ds := cs.takeWhile Char.isDigit
  if ds.isEmpty then none else some (ds, cs.dropWhile Char.isDigit)

/-- A fraction: a point and one or more digits. -/
def takeFraction : List Char → Option (Option (List Char) × List Char)
  | '.' :: cs => (takeDigits cs).map fun p => (some p.1, p.2)
  | cs => some (none, cs)

/-- The sign of an exponent. -/
def takeSign : List Char → Int × List Char
  | '+' :: cs => (1, cs)
  | '-' :: cs => (-1, cs)
  | cs => (1, cs)

/-- An exponent. -/
def takeExponent : List Char → Option (Option Int × List Char)
  | c :: cs =>
      if c = 'e' ∨ c = 'E' then
        let (sign, cs) := takeSign cs
        (takeDigits cs).map fun p => (some (sign * (Decimal.digitsValue p.1 : Int)), p.2)
      else some (none, c :: cs)
  | [] => some (none, [])

/-- Reads a numeral without its sign. -/
def ofUnsigned? (negative : Bool) (cs : List Char) : Option Numeral := do
  let (whole, cs) ← takeDigits cs
  let (fraction, cs) ← takeFraction cs
  let (exponent, cs) ← takeExponent cs
  if cs.isEmpty && (whole.length = 1 || whole.head? != some '0') then
    some ⟨negative, whole, fraction, exponent⟩
  else none

/-- Reads a numeral: no superfluous zero in front, and nothing after it. -/
def ofText? : List Char → Option Numeral
  | '-' :: cs => ofUnsigned? true cs
  | cs => ofUnsigned? false cs

/-- The floating-point number of a numeral. -/
def float? (n : Numeral) : Option Number := do
  let x ← Decimal.scaled n.whole (n.fraction.getD []) (n.exponent.getD 0)
  Number.ofFloat? (if n.negative then -x else x)

/-- The number a numeral spells; `none` beyond the largest floating-point number. -/
def number? (n : Numeral) : Option Number :=
  match n.fraction, n.exponent with
  | none, none =>
      let magnitude := Decimal.digitsValue n.whole
      if n.negative then
        if 0 < magnitude ∧ magnitude ≤ UInt64.size / 2 then some (.int (-magnitude)) else n.float?
      else if magnitude < UInt64.size then some (.int magnitude)
      else n.float?
  | _, _ => n.float?

end Numeral

end Groundwork.Json
