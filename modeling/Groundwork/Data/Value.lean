import Groundwork.Data.Table

/-!
# Values: the documents of the library

`Value` is the tree that inputs, outputs, variables and definitions are made of: the six kinds of JSON
values.  A number is an integer between `-2^63` and `2^64 - 1` or a finite binary64 number, held by its
bit pattern, so that equality of values is decidable and tells `0.0` from `-0.0`.

`Value.same` is the comparison the domain uses: floating-point numbers are compared as numbers there.

Main statements: structural equality is decidable (`Value.beq_iff`).
-/

namespace Groundwork

/-- A number of a document. -/
inductive Number where
  /-- An integer. -/
  | int (n : Int)
  /-- A binary64 number, by its bit pattern. -/
  | float (bits : UInt64)
  deriving DecidableEq, Repr, Inhabited

namespace Number

/-- The nearest binary64 number. -/
def toFloat : Number → Float
  | .int n => Float.ofInt n
  | .float bits => Float.ofBits bits

/-- A finite binary64 number. -/
def ofFloat? (x : Float) : Option Number := if x.isFinite then some (.float x.toBits) else none

/-- The same number of the same kind; floating-point numbers are compared as numbers. -/
def same : Number → Number → Bool
  | .int m, .int n => m = n
  | .float a, .float b => Float.ofBits a == Float.ofBits b
  | _, _ => false

end Number

/-- A document tree. -/
inductive Value where
  | null
  | bool (b : Bool)
  | num (n : Number)
  | str (s : String)
  | arr (items : List Value)
  | obj (fields : List (String × Value))
  deriving Repr, Inhabited

namespace Value

/-- A value that is an integer. -/
def ofInt (n : Int) : Value := .num (.int n)

/-- A value that is a count. -/
def ofNat (n : Nat) : Value := .num (.int n)

/-- An optional value; nothing is null. -/
def ofOption (f : α → Value) : Option α → Value
  | none => .null
  | some a => f a

/-- A list of texts. -/
def ofStrings (l : List String) : Value := .arr (l.map .str)

/-- Whether a value is null. -/
def isNull : Value → Bool
  | .null => true
  | _ => false

/-- The text of a string. -/
def str? : Value → Option String
  | .str s => some s
  | _ => none

/-- The fields of an object. -/
def fields? : Value → Option (Table Value)
  | .obj fields => some fields
  | _ => none

/-- A field of an object. -/
def get? (v : Value) (k : String) : Option Value := v.fields? >>= (·.lookup k)

/-! ### Structural equality -/

/-- Structural equality as a test. -/
def beq : Value → Value → Bool
  | .null, .null => true
  | .bool a, .bool b => a = b
  | .num a, .num b => a = b
  | .str a, .str b => a = b
  | .arr xs, .arr ys => beqItems xs ys
  | .obj xs, .obj ys => beqFields xs ys
  | _, _ => false
where
  /-- Structural equality of items. -/
  beqItems : List Value → List Value → Bool
    | [], [] => true
    | x :: xs, y :: ys => beq x y && beqItems xs ys
    | _, _ => false
  /-- Structural equality of fields. -/
  beqFields : List (String × Value) → List (String × Value) → Bool
    | [], [] => true
    | (k, x) :: xs, (l, y) :: ys => (k = l) && beq x y && beqFields xs ys
    | _, _ => false

mutual
theorem beq_iff : ∀ (x y : Value), x.beq y = true ↔ x = y
  | .null, y => by cases y <;> simp [beq]
  | .bool a, y => by cases y <;> simp [beq]
  | .num a, y => by cases y <;> simp [beq]
  | .str a, y => by cases y <;> simp [beq]
  | .arr xs, y => by cases y <;> simp [beq, beqItems_iff xs]
  | .obj xs, y => by cases y <;> simp [beq, beqFields_iff xs]

theorem beqItems_iff : ∀ (xs ys : List Value), beq.beqItems xs ys = true ↔ xs = ys
  | [], ys => by cases ys <;> simp [beq.beqItems]
  | x :: xs, ys => by cases ys <;> simp [beq.beqItems, beq_iff x, beqItems_iff xs]

theorem beqFields_iff : ∀ (xs ys : List (String × Value)), beq.beqFields xs ys = true ↔ xs = ys
  | [], ys => by cases ys <;> simp [beq.beqFields]
  | (k, x) :: xs, ys => by
    cases ys with
    | nil => simp [beq.beqFields]
    | cons p ys =>
      obtain ⟨l, y⟩ := p
      simp [beq.beqFields, beq_iff x, beqFields_iff xs, and_assoc]
end

instance : DecidableEq Value := fun x y =>
  if h : x.beq y = true then isTrue ((beq_iff x y).1 h) else isFalse fun e => h ((beq_iff x y).2 e)

/-! ### Comparison of the domain -/

/-- Equal values: the same tree, floating-point leaves compared as numbers. -/
def same : Value → Value → Bool
  | .null, .null => true
  | .bool a, .bool b => a = b
  | .num a, .num b => a.same b
  | .str a, .str b => a = b
  | .arr xs, .arr ys => sameItems xs ys
  | .obj xs, .obj ys => sameFields xs ys
  | _, _ => false
where
  /-- Equal items. -/
  sameItems : List Value → List Value → Bool
    | [], [] => true
    | x :: xs, y :: ys => same x y && sameItems xs ys
    | _, _ => false
  /-- Equal fields. -/
  sameFields : List (String × Value) → List (String × Value) → Bool
    | [], [] => true
    | (k, x) :: xs, (l, y) :: ys => (k = l) && same x y && sameFields xs ys
    | _, _ => false

/-! ### Objects sorted by name -/

/-- The value whose objects are sorted by name; of equal names the last field counts. -/
def sorted : Value → Value
  | .arr items => .arr (sortedItems items)
  | .obj fields => .obj (sortedFields fields [])
  | v => v
where
  /-- The items with sorted objects. -/
  sortedItems : List Value → List Value
    | [] => []
    | v :: vs => sorted v :: sortedItems vs
  /-- The fields with sorted objects, written one after the other into a sorted table. -/
  sortedFields : List (String × Value) → Table Value → Table Value
    | [], t => t
    | (k, v) :: fields, t => sortedFields fields (t.file k (sorted v))

/-- The value with all its strings changed; the names of fields stay. -/
def mapTexts (f : String → String) : Value → Value
  | .str s => .str (f s)
  | .arr items => .arr (mapItemTexts items)
  | .obj fields => .obj (mapFieldTexts fields)
  | v => v
where
  /-- The items with their strings changed. -/
  mapItemTexts : List Value → List Value
    | [] => []
    | v :: vs => mapTexts f v :: mapItemTexts vs
  /-- The fields with their strings changed. -/
  mapFieldTexts : List (String × Value) → List (String × Value)
    | [] => []
    | (k, v) :: fields => (k, mapTexts f v) :: mapFieldTexts fields

end Value

end Groundwork
