/-!
# Shortest decimals: the fewest digits that read back

A positive finite binary64 number is `mantissa * 2 ^ exponent`.  The real numbers that round to it form
an interval around it, whose ends belong to it exactly if the mantissa is even.  `shortest` goes through
the decimal grids with one, two, … seventeen significant digits and takes the first grid that has a point
in that interval; of two such points it takes the nearer one, and the even one of two equally near.

All arithmetic is on natural numbers, so the result is exact.

Main statements: a grid point is taken only inside the interval (`Interval.pick_inside`).
-/

namespace Groundwork.Decimal

/-- The number `mantissa * 2 ^ exponent`. -/
structure Binary where
  mantissa : Nat
  exponent : Int
  /-- Whether the next smaller binary64 number is only half a step away. -/
  narrowBelow : Bool
  deriving DecidableEq, Repr

/-- The magnitude of a finite binary64 number, from its bit pattern. -/
def Binary.ofBits (bits : UInt64) : Binary :=
  let fraction := bits.toNat % Nat.pow 2 52
  let biased : Nat := bits.toNat / Nat.pow 2 52 % Nat.pow 2 11
  if biased = 0 then ⟨fraction, -1074, false⟩
  else ⟨fraction + Nat.pow 2 52, (biased : Int) - 1075, fraction = 0 && 1 < biased⟩

/-- The decimal `digits * 10 ^ exponent`. -/
structure Scaled where
  digits : Nat
  exponent : Int
  deriving DecidableEq, Repr

/-- The numbers that round to a binary64 number, measured on a decimal grid: the grid points are the
multiples of `step`, and the interval reaches from `low` to `high` around `mid`. -/
structure Interval where
  low : Nat
  mid : Nat
  high : Nat
  step : Nat
  closed : Bool
  deriving DecidableEq, Repr

namespace Interval

/-- Whether the `n`-th grid point lies in the interval. -/
def holds (i : Interval) (n : Nat) : Bool :=
  let x := n * i.step
  if i.closed then i.low ≤ x && x ≤ i.high else i.low < x && x < i.high

/-- The grid point of the interval that is nearest to its middle, if the interval has any of the two
neighbours of the middle; of two equally near ones the even one. -/
def pick (i : Interval) : Option Nat :=
  let below := i.mid / i.step
  let rest := i.mid % i.step
  match i.holds below, i.holds (below + 1) with
  | true, true =>
      if 2 * rest < i.step then some below
      else if i.step < 2 * rest then some (below + 1)
      else if below % 2 = 0 then some below else some (below + 1)
  | true, false => some below
  | false, true => some (below + 1)
  | false, false => none

theorem pick_inside {i : Interval} {n : Nat} (h : i.pick = some n) : i.holds n = true := by
  unfold pick at h
  grind

end Interval

/-- The interval of a number on the grid whose step is `10 ^ e`. -/
def Binary.interval (b : Binary) (e : Int) : Interval :=
  let up := Nat.pow 2 (b.exponent - 2).toNat * Nat.pow 10 (-e).toNat
  let down := Nat.pow 2 (2 - b.exponent).toNat * Nat.pow 10 e.toNat
  let middle := 4 * b.mantissa
  { low := (middle - (if b.narrowBelow then 1 else 2)) * up
    mid := middle * up
    high := (middle + 2) * up
    step := down
    closed := b.mantissa % 2 = 0 }

/-- The number of decimal digits. -/
def countDigits (n : Nat) : Nat := (Nat.toDigits 10 n).length

/-- The exponent of the leading decimal digit: the greatest `k` with `10 ^ k` at most the number. -/
def Binary.leading (b : Binary) : Int :=
  let scaled := b.mantissa * Nat.pow 2 b.exponent.toNat * Nat.pow 10 340 / Nat.pow 2 (-b.exponent).toNat
  (countDigits scaled : Int) - 341

/-- The first hit on the grids with `n`, `n + 1`, … digits, `left` of them at most. -/
def Binary.search (b : Binary) (k : Int) : Nat → Nat → Scaled
  | 0, n =>
      let e := k - n + 1
      let i := b.interval e
      ⟨i.mid / i.step, e⟩
  | left + 1, n =>
      let e := k - n + 1
      match (b.interval e).pick with
      | some d => ⟨d, e⟩
      | none => b.search k left (n + 1)

/-- The decimal with the fewest digits that reads back as the same number. -/
def Binary.shortest (b : Binary) : Scaled := b.search b.leading 17 1

/-! ### The text of a floating-point number

The digits are the shortest ones (`Binary.shortest`).  Numbers whose leading digit stands at an exponent
between `-5` and `15` are written with a point and at least one digit after it; all others are written
with an exponent that always carries its sign. -/

/-- Digits without the zeros at their end, and the number of zeros left out. -/
def trimZeros (digits : List Char) : List Char × Nat :=
  let kept := (digits.reverse.dropWhile (· = '0')).reverse
  (kept, digits.length - kept.length)

/-- The text of a positive decimal whose digits are not all zero. -/
def Scaled.layout (s : Scaled) : List Char :=
  let (digits, zeros) := trimZeros (Nat.toDigits 10 s.digits)
  let exponent : Int := s.exponent + zeros
  let point : Int := digits.length + exponent
  if 0 ≤ exponent ∧ point ≤ 16 then
    digits ++ List.replicate exponent.toNat '0' ++ ['.', '0']
  else if 0 < point ∧ point ≤ 16 then
    digits.take point.toNat ++ '.' :: digits.drop point.toNat
  else if -5 < point ∧ point ≤ 0 then
    '0' :: '.' :: List.replicate (-point).toNat '0' ++ digits
  else
    let fraction := digits.drop 1
    let sign := if 0 < point then '+' else '-'
    digits.take 1 ++ (if fraction.isEmpty then [] else '.' :: fraction)
      ++ 'e' :: sign :: Nat.toDigits 10 (point - 1).natAbs

/-- The text of a finite binary64 number, from its bit pattern. -/
def floatText (bits : UInt64) : List Char :=
  let sign := if bits.toNat / (UInt64.size / 2) = 1 then ['-'] else []
  let magnitude := Binary.ofBits bits
  sign ++ (if magnitude.mantissa = 0 then ['0', '.', '0'] else magnitude.shortest.layout)

/-- The text of an integer. -/
def intText : Int → List Char
  | .ofNat n => Nat.toDigits 10 n
  | .negSucc n => '-' :: Nat.toDigits 10 (n + 1)

end Groundwork.Decimal
