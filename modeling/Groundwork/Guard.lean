import Groundwork.Failure
import Groundwork.Guard.Eval
import Groundwork.Guard.Parser

/-!
# Guards

A guard is an expression with the text it was read from.  Hooks carry guards as their conditions; guards
can read the context they are given and nothing else.
-/

namespace Groundwork

/-- An expression and its text. -/
structure Guard where
  source : String
  expr : Guard.Expr
  deriving DecidableEq, Repr, Inhabited

namespace Guard

/-- Reads a guard. -/
def parse (source : String) : Except ExpressionError Guard :=
  match (tokens source.toList).bind parseTokens with
  | .ok e => .ok ⟨source, e⟩
  | .error fault => .error (.parse source fault.message)

/-- Whether some path of the guard starts at a scope. -/
def references (g : Guard) (scope : String) : Bool := g.expr.references scope

/-- The value of a guard in a context. -/
def evaluate (g : Guard) (context : Value) : Except ExpressionError Value :=
  match g.expr.eval context with
  | .ok v => .ok v
  | .error fault => .error (.evaluation g.source fault.message)

end Guard

end Groundwork
