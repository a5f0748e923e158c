import Groundwork.Guard.Token
import Groundwork.Json.Writer

/-!
# Failures of guards
-/

namespace Groundwork.Guard

/-- Why a text is no guard. -/
inductive SyntaxFault where
  | unterminatedString
  | unexpectedCharacter (c : Char)
  /-- A token stands after the end of the expression. -/
  | trailing (t : Token)
  /-- An operand was wanted. -/
  | unexpected (found : Option Token)
  | expected (wanted : Token) (found : Option Token)
  | expectedField (found : Option Token)
  | expectedIndex (found : Option Token)
  | invalidIndex (text : String)
  | invalidNumber (text : String)
  | unknownFunction (name : String)
  | wrongArity (name : String) (wanted got : Nat)
  deriving DecidableEq, Repr

/-- The text of a failure. -/
def SyntaxFault.message : SyntaxFault → String
  | .unterminatedString => "unterminated string"
  | .unexpectedCharacter c => "unexpected character '" ++ String.singleton c ++ "'"
  | .trailing t => "unexpected token " ++ t.describe
  | .unexpected found => "unexpected token " ++ describeFound found
  | .expected wanted found => "expected " ++ wanted.describe ++ ", found " ++ describeFound found
  | .expectedField found => "expected field name, found " ++ describeFound found
  | .expectedIndex found => "expected index, found " ++ describeFound found
  | .invalidIndex text => "invalid index " ++ text
  | .invalidNumber text => "invalid number " ++ text
  | .unknownFunction name => "unknown function " ++ name
  | .wrongArity name wanted got =>
      name ++ " expects " ++ toString wanted ++ " argument(s), got " ++ toString got

/-- Why a guard has no value. -/
inductive ValueFault where
  /-- A function was given something that is no text. -/
  | notText (function : String) (v : Value)
  /-- There is nothing to search in. -/
  | notSearchable (v : Value)
  deriving DecidableEq, Repr

/-- The text of a failure. -/
def ValueFault.message : ValueFault → String
  | .notText function v => function ++ " expects a string, got " ++ Json.compact v
  | .notSearchable v => "contains cannot search " ++ Json.compact v

end Groundwork.Guard
