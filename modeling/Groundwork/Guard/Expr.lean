import Groundwork.Path

/-!
# Guard expressions

The trees that guards are read into.  Functions are told apart by how many arguments they take, so a call
always has as many as its function wants.
-/

namespace Groundwork.Guard

/-- The operators between two operands. -/
inductive BinaryOp where
  | eq | ne | lt | le | gt | ge | and | or
  deriving DecidableEq, Repr, Inhabited

/-- The functions of one text. -/
inductive TextFunction where
  | toLower | toUpper | trim
  deriving DecidableEq, Repr, Inhabited

/-- The tests of one value against another. -/
inductive TestFunction where
  /-- Part of a text, item of an array, or field of an object. -/
  | contains
  | startsWith
  | endsWith
  deriving DecidableEq, Repr, Inhabited

/-- The name of a function. -/
def TextFunction.name : TextFunction → String
  | .toLower => "toLower"
  | .toUpper => "toUpper"
  | .trim => "trim"

/-- The name of a function. -/
def TestFunction.name : TestFunction → String
  | .contains => "contains"
  | .startsWith => "startsWith"
  | .endsWith => "endsWith"

/-- An expression. -/
inductive Expr where
  | literal (v : Value)
  | path (p : Path)
  | not (e : Expr)
  | binary (op : BinaryOp) (left right : Expr)
  | text (f : TextFunction) (arg : Expr)
  | test (f : TestFunction) (subject object : Expr)
  deriving DecidableEq, Repr, Inhabited

/-- Whether some path of an expression starts at a scope. -/
def Expr.references (scope : String) : Expr → Bool
  | .literal _ => false
  | .path p => p.head? == some (.field scope)
  | .not e => e.references scope
  | .binary _ l r => l.references scope || r.references scope
  | .text _ a => a.references scope
  | .test _ a b => a.references scope || b.references scope

end Groundwork.Guard
