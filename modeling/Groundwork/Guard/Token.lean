import Groundwork.Data.Value
import Groundwork.Text.Quoted

/-!
# Tokens of guards

The lexical units of the guard language, and how messages show them.
-/

namespace Groundwork.Guard

/-- A lexical unit. -/
inductive Token where
  /-- A word: a name, a function or one of the literal words. -/
  | word (s : String)
  /-- A number, as it stands in the text. -/
  | number (s : String)
  /-- The content of a quoted string. -/
  | str (s : String)
  | dot | comma | leftParen | rightParen | leftBracket | rightBracket
  | not | and | or | eq | ne | lt | le | gt | ge
  deriving DecidableEq, Repr, Inhabited

/-- The form in which messages show a token. -/
def Token.describe : Token → String
  | .word s => "Ident(" ++ Text.quoted s ++ ")"
  | .number s => "Number(" ++ Text.quoted s ++ ")"
  | .str s => "Str(" ++ Text.quoted s ++ ")"
  | .dot => "Dot"
  | .comma => "Comma"
  | .leftParen => "LParen"
  | .rightParen => "RParen"
  | .leftBracket => "LBracket"
  | .rightBracket => "RBracket"
  | .not => "Not"
  | .and => "And"
  | .or => "Or"
  | .eq => "Eq"
  | .ne => "Ne"
  | .lt => "Lt"
  | .le => "Le"
  | .gt => "Gt"
  | .ge => "Ge"

/-- The form in which messages show what was found: a token, or the end of the text. -/
def describeFound : Option Token → String
  | some t => "Some(" ++ t.describe ++ ")"
  | none => "None"

end Groundwork.Guard
