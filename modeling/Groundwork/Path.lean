import Groundwork.Data.Value
import Groundwork.Decimal.Reading
import Groundwork.Text.Blank
import Groundwork.Text.Search

/-!
# Paths into values

A path starts with a word and goes on with fields (`.word`, or a quoted name in brackets) and indexes
(a number in brackets).  `Path.parse?` reads exactly the plain paths; every other expression is none.
`Path.find?` follows a path: names select fields of objects, indexes select items of arrays, and each also
serves as the other, an index by its digits and a name that spells an index.
-/

namespace Groundwork

/-- A step of a path. -/
inductive Step where
  | field (name : String)
  | index (n : Nat)
  deriving DecidableEq, Repr, Inhabited

/-- A path: the steps from a value into its parts. -/
abbrev Path := List Step

namespace Path

/-- The characters a word starts with. -/
def isWordStart (c : Char) : Bool := c.isAlpha || c = '_'

/-- The characters of a word. -/
def isWordChar (c : Char) : Bool := c.isAlphanum || c = '_' || c = '-'

/-- A number of one or more digits, with an optional plus sign, below `2 ^ 64`. -/
def readIndex? (cs : List Char) : Option Nat :=
  let digits := match cs with
    | '+' :: ds => ds
    | ds => ds
  let n := Decimal.digitsValue digits
  if !digits.isEmpty && digits.all Char.isDigit && n < UInt64.size then some n else none

/-- The text between two equal quotation marks. -/
def unquote? (mark : Char) (cs : List Char) : Option (List Char) :=
  (Text.dropStart [mark] cs).bind (Text.dropFinish [mark])

/-- The step written between brackets: an index or a quoted name. -/
def bracketStep? (inner : List Char) : Option Step :=
  let inner := Text.trim inner
  match readIndex? inner with
  | some n => some (.index n)
  | none =>
      match unquote? '"' inner with
      | some name => some (.field (String.ofList name))
      | none => (unquote? '\'' inner).map fun name => .field (String.ofList name)

/-- A word of at least one character, and what follows it. -/
def takeWord (cs : List Char) : Option (String × List Char) :=
  let word := cs.takeWhile isWordChar
  if word.isEmpty then none else some (String.ofList word, cs.dropWhile isWordChar)

theorem takeWord_length {cs : List Char} {w : String} {rest : List Char}
    (h : takeWord cs = some (w, rest)) : rest.length ≤ cs.length := by
  unfold takeWord at h
  have hs := (List.dropWhile_suffix isWordChar (l := cs)).length_le
  grind

/-- The steps after the first word. -/
def steps? : List Char → Option Path
  | [] => some []
  | '.' :: cs =>
      match _h : takeWord cs with
      | some (w, rest) => (steps? rest).map (.field w :: ·)
      | none => none
  | '[' :: cs =>
      match _h : Text.cut [']'] cs with
      | some (inner, rest) =>
          match bracketStep? inner with
          | some s => (steps? rest).map (s :: ·)
          | none => none
      | none => none
  | _ :: _ => none
termination_by cs => cs.length
decreasing_by
  · have := takeWord_length _h
    simp only [List.length_cons]
    omega
  · have := Text.cut_length _h
    simp only [List.length_cons]
    omega

/-- Reads a plain path. -/
def parse? (e : String) : Option Path :=
  match e.toList with
  | c :: cs =>
      if isWordStart c then (takeWord (c :: cs)).bind fun p => (steps? p.2).map (.field p.1 :: ·)
      else none
  | [] => none

/-- The part of a value that one step leads to. -/
def step? (v : Value) : Step → Option Value
  | .field name =>
      match v with
      | .obj fields => fields.lookup name
      | .arr items => (readIndex? name.toList).bind (items[·]?)
      | _ => none
  | .index n =>
      match v with
      | .obj fields => fields.lookup (toString n)
      | .arr items => items[n]?
      | _ => none

/-- The part of a value that a path leads to. -/
def find? (v : Value) : Path → Option Value
  | [] => some v
  | s :: path => (step? v s).bind fun part => find? part path

theorem find?_append (v : Value) (p q : Path) :
    find? v (p ++ q) = (find? v p).bind fun part => find? part q := by
  induction p generalizing v with
  | nil => rfl
  | cons s p ih =>
    cases h : step? v s with
    | none => simp [find?, h]
    | some part => simp [find?, h, ih]

end Path

end Groundwork
