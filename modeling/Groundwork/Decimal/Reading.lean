/-!
# Reading decimals

Two ways of turning decimal digits into a binary64 number.  `nearest` rounds once, to the nearest number.
`scaled` is the rule of document numbers: the leading digits that fit 64 bits are rounded, and the result
is multiplied or divided by a power of ten, which rounds again; it fails beyond the largest finite number.
-/

namespace Groundwork.Decimal

/-- The number of a digit. -/
def digitValue (c : Char) : Nat := c.toNat - '0'.toNat

/-- The number that a list of digits spells. -/
def digitsValue (ds : List Char) : Nat := ds.foldl (fun n c => 10 * n + digitValue c) 0

/-- The natural number that a text spells: a plus sign or none, and digits; it must be below a bound. -/
def natural? (bound : Nat) (text : String) : Option Nat :=
  let digits := match text.toList with
    | '+' :: ds => ds
    | ds => ds
  let n := digitsValue digits
  if !digits.isEmpty && digits.all Char.isDigit && n < bound then some n else none

/-- The binary64 number nearest to `n * 10 ^ e`; infinity when it is too large. -/
def nearest (n : Nat) (e : Int) : Float :=
  let top : Int := (Nat.toDigits 10 n).length + e
  if n = 0 ∨ top < -400 then 0.0
  else if 400 < top then Float.ofScientific 1 false 400
  else Float.ofScientific n (e < 0) e.natAbs

/-- Digits taken into a significand as long as it fits 64 bits, and the digits after them. -/
def takeSignificand : Nat → List Char → Nat × List Char
  | n, [] => (n, [])
  | n, d :: ds =>
      let n' := 10 * n + digitValue d
      if n' < UInt64.size then takeSignificand n' ds else (n, d :: ds)

/-- The binary64 number of a significand and a power of ten: one rounded multiplication or division. -/
def scaleFloat (significand : Nat) (e : Int) : Option Float :=
  let x := Float.ofScientific significand false 0
  if 308 < e then (if significand = 0 then some 0.0 else none)
  else if 0 ≤ e then
    let y := x * Float.ofScientific 1 false e.toNat
    if y.isInf then none else some y
  else if -308 ≤ e then some (x / Float.ofScientific 1 false (-e).toNat)
  else if -616 ≤ e then
    some (x / Float.ofScientific 1 false 308 / Float.ofScientific 1 false (-e - 308).toNat)
  else some 0.0

/-- The magnitude of a document number with these digits before and after the point and this exponent.
Digits before the point that no longer fit the significand only raise the exponent; digits after the point
are ignored from the first that does not fit. -/
def scaled (whole fraction : List Char) (exponent : Int) : Option Float :=
  let (n, extra) := takeSignificand 0 whole
  let (n, rest) := takeSignificand n fraction
  scaleFloat n (exponent + extra.length - (fraction.length - rest.length : Nat))

/-! ### Numbers in texts

The floating-point number that a text spells: an optional sign, digits with an optional point somewhere,
and an optional exponent; or a word for infinity or for no number. -/

/-- Splits a sign off a text. -/
def takeSign : List Char → Bool × List Char
  | '-' :: cs => (true, cs)
  | '+' :: cs => (false, cs)
  | cs => (false, cs)

/-- The exponent that a text spells: nothing, or a letter, an optional sign and digits. -/
def readExponent? : List Char → Option Int
  | [] => some 0
  | c :: cs =>
      let (negative, ds) := takeSign cs
      if (c = 'e' || c = 'E') && !ds.isEmpty && ds.all Char.isDigit then
        let n : Int := digitsValue ds
        some (if negative then -n else n)
      else none

/-- The text after the digits before the point: the digits after the point, and the rest. -/
def takePoint : List Char → List Char × List Char
  | '.' :: cs => (cs.takeWhile Char.isDigit, cs.dropWhile Char.isDigit)
  | cs => ([], cs)

/-- The number that digits, point and exponent spell. -/
def readMagnitude? (cs : List Char) : Option Float :=
  let whole := cs.takeWhile Char.isDigit
  let (fraction, rest) := takePoint (cs.dropWhile Char.isDigit)
  if whole.isEmpty && fraction.isEmpty then none
  else (readExponent? rest).map fun e => nearest (digitsValue (whole ++ fraction)) (e - fraction.length)

/-- The words that stand for numbers without digits. -/
def wordMagnitude? (cs : List Char) : Option Float :=
  let word := String.ofList (cs.map Char.toLower)
  if word = "inf" || word = "infinity" then some (1.0 / 0.0)
  else if word = "nan" then some (0.0 / 0.0)
  else none

/-- The floating-point number that a text spells. -/
def readFloat? (cs : List Char) : Option Float :=
  let (negative, cs) := takeSign cs
  ((wordMagnitude? cs).or (readMagnitude? cs)).map fun x => if negative then -x else x

end Groundwork.Decimal
