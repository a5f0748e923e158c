import Groundwork.Decimal.Reading
import Groundwork.Guard.Error
import Groundwork.Guard.Expr
import Groundwork.Text.Case
import Groundwork.Text.Search

/-!
# The value of a guard

A path that leads nowhere is null.  Comparisons never fail: operands that cannot be compared are neither
equal nor ordered.  Only functions can fail, when they are given something that is no text; given null they
answer null or false.
-/

namespace Groundwork.Guard

/-- Whether a value counts as true: neither null, false, zero nor empty. -/
def truthy : Value → Bool
  | .null => false
  | .bool b => b
  | .num n => n.toFloat != 0.0
  | .str s => !s.isEmpty
  | .arr items => !items.isEmpty
  | .obj fields => !fields.isEmpty

/-- The number of a value: a number, or the one that a text spells. -/
def toNumber? : Value → Option Float
  | .num n => some n.toFloat
  | .str s => Decimal.readFloat? (Text.trim s.toList)
  | _ => none

/-- The distance below which a number and a text are equal: the gap above one. -/
def tolerance : Float := Float.ofBits 0x3cb0000000000000

/-- Equality: numbers by value, a number and a text by the number the text spells, all else as a tree. -/
def looseEq : Value → Value → Bool
  | .num a, .str b =>
      match toNumber? (.str b) with
      | some y => (a.toFloat - y).abs < tolerance
      | none => false
  | .str a, .num b =>
      match toNumber? (.str a) with
      | some x => (x - b.toFloat).abs < tolerance
      | none => false
  | .num a, .num b => a.toFloat == b.toFloat
  | a, b => a.same b

/-- The comparison of two numbers. -/
def compareNumbers (op : BinaryOp) (x y : Float) : Bool :=
  match op with
  | .lt => x < y
  | .le => x ≤ y
  | .gt => y < x
  | _ => y ≤ x

/-- The comparison of two texts, by code points. -/
def compareTexts (op : BinaryOp) (x y : String) : Bool :=
  match op with
  | .lt => x < y
  | .le => !(y < x)
  | .gt => y < x
  | _ => !(x < y)

/-- Order: two texts as texts, all else as numbers. -/
def compareValues (op : BinaryOp) : Value → Value → Bool
  | .str a, .str b => compareTexts op a b
  | a, b =>
      match toNumber? a, toNumber? b with
      | some x, some y => compareNumbers op x y
      | _, _ => false

/-- The text of a value for a function; null is none. -/
def textOf (function : String) : Value → Except ValueFault (Option String)
  | .null => .ok none
  | .str s => .ok (some s)
  | v => .error (.notText function v)

/-- A function of one text. -/
def applyText (f : TextFunction) (v : Value) : Except ValueFault Value := do
  match ← textOf f.name v with
  | none => .ok .null
  | some s =>
      let image := match f with
        | .toLower => Text.toLower s.toList
        | .toUpper => Text.toUpper s.toList
        | .trim => Text.trim s.toList
      .ok (.str (String.ofList image))

/-- A test of the ends of a text; null passes no test. -/
def testEnds (name : String) (test : List Char → List Char → Bool) (subject object : Value) :
    Except ValueFault Value := do
  let s ← textOf name subject
  let t ← textOf name object
  match s, t with
  | some s, some t => .ok (.bool (test t.toList s.toList))
  | _, _ => .ok (.bool false)

/-- A test of one value against another. -/
def applyTest : TestFunction → Value → Value → Except ValueFault Value
  | .startsWith, s, t => testEnds "startsWith" Text.startsWith s t
  | .endsWith, s, t => testEnds "endsWith" Text.endsWith s t
  | .contains, .arr items, needle => .ok (.bool (items.any (looseEq · needle)))
  | .contains, .obj fields, .str key => .ok (.bool (Table.has fields key))
  | .contains, .obj _, _ => .ok (.bool false)
  | .contains, .str s, needle => do
      match ← textOf "contains" needle with
      | some t => .ok (.bool (Text.contains t.toList s.toList))
      | none => .ok (.bool false)
  | .contains, .null, _ => .ok (.bool false)
  | .contains, v, _ => .error (.notSearchable v)

/-- The value of an operator that needs both operands. -/
def applyBinary (op : BinaryOp) (l r : Value) : Bool :=
  match op with
  | .eq => looseEq l r
  | .ne => !looseEq l r
  | .and | .or => truthy r
  | _ => compareValues op l r

/-- The value of an expression in a context.  The right operand of a conjunction or disjunction is looked
at only if the left one does not decide. -/
def Expr.eval (context : Value) : Expr → Except ValueFault Value
  | .literal v => .ok v
  | .path p => .ok ((Path.find? context p).getD .null)
  | .not e => do
      let v ← e.eval context
      .ok (.bool !truthy v)
  | .binary op l r => do
      let left ← l.eval context
      if op = .and ∧ truthy left = false then .ok (.bool false)
      else if op = .or ∧ truthy left = true then .ok (.bool true)
      else do
        let right ← r.eval context
        .ok (.bool (applyBinary op left right))
  | .text f a => do
      let v ← a.eval context
      applyText f v
  | .test f a b => do
      let s ← a.eval context
      let t ← b.eval context
      applyTest f s t

end Groundwork.Guard
