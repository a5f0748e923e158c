import Groundwork.Failure
import Groundwork.Path
import Groundwork.Template

/-!
# References to outputs

A reference names a node and one of its outputs: the id, a dot, and a key.  Ids hold no dots, so the first
dot divides the two, and a key may be a path into an output.

`Reference.resolve` puts outputs in the place of references; any other expression is an error there.

Main statements: a reference splits back into what it was joined from (`split?_join`).
-/

namespace Groundwork

/-- A node and one of its outputs. -/
structure Reference where
  node : String
  key : String
  deriving DecidableEq, Repr, Inhabited

namespace Reference

/-- The expression of a reference. -/
def expression (r : Reference) : String := r.node ++ "." ++ r.key

/-- The token of a reference. -/
def token (r : Reference) : String := Template.renderToken r.expression

/-- Splits an expression at its first dot, on characters. -/
def splitChars? (e : List Char) : Option (List Char × List Char) :=
  match Text.cut ['.'] e with
  | some (id, key) =>
      if id.isEmpty || key.isEmpty || id.any Text.isBlank then none else some (id, key)
  | none => none

/-- The reference that an expression is. -/
def ofExpression? (e : String) : Option Reference :=
  (splitChars? e.toList).map fun p => ⟨String.ofList p.1, String.ofList p.2⟩

/-- The references among the tokens of a value, from left to right. -/
def all (v : Value) : List Reference := (Template.visitExpressions v).filterMap ofExpression?

/-- An output: the field of that name, or else the part that the key leads to as a path. -/
def output? (outputs : Value) (key : String) : Option Value :=
  (outputs.get? key).or ((Path.parse? key).bind (Path.find? outputs))

/-- The value of an expression, given the outputs of nodes by their ids. -/
def lookup (outputs : Table Value) (e : String) : Except ExpressionError Value :=
  match ofExpression? e with
  | none => .error (.invalidReference e)
  | some r =>
      match outputs.lookup r.node with
      | none => .error (.missingOutputs r.node)
      | some o =>
          match output? o r.key with
          | none => .error (.missingOutputKey r.node r.key)
          | some v => .ok v

/-- Puts outputs in the place of all references of a value. -/
def resolve (outputs : Table Value) (v : Value) : Except ExpressionError Value :=
  Template.mapExpressions (fun e => (lookup outputs e).map some) v

/-- Renames the nodes of all references of a value; every other token stays. -/
def rename (names : Table String) (v : Value) : Value :=
  let replace (e : String) : Id (Option Value) := pure do
    let r ← ofExpression? e
    let node ← names.lookup r.node
    some (.str (token ⟨node, r.key⟩))
  Id.run (Template.mapExpressions replace v)

theorem cut_dot {id key : List Char} (h : '.' ∉ id) :
    Text.cut ['.'] (id ++ '.' :: key) = some (id, key) := by
  induction id with
  | nil => simp [Text.cut, Text.dropStart]
  | cons c id ih =>
    simp only [List.mem_cons, not_or] at h
    have : Text.dropStart ['.'] (c :: (id ++ '.' :: key)) = none := by simp [Text.dropStart, h.1]
    simp only [List.cons_append, Text.cut, this, ih h.2, Option.map_some]

theorem split?_join {id key : List Char} (hd : '.' ∉ id) (hb : ∀ c ∈ id, Text.isBlank c = false)
    (hi : id ≠ []) (hk : key ≠ []) : splitChars? (id ++ '.' :: key) = some (id, key) := by
  have ha : id.any Text.isBlank = false := by simpa [List.any_eq_false] using hb
  simp [splitChars?, cut_dot hd, hi, hk, ha]

end Reference

end Groundwork
