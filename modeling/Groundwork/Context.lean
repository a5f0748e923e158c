import Groundwork.Failure
import Groundwork.Path
import Groundwork.Template

/-!
# Contexts: named scopes for substitution

A context is a sorted table of scopes, some of them strict.  A plain path whose first word names a scope is
looked up in it; a path that leads nowhere is left in place, except in a strict scope, where a missing or
null value is an error.
-/

namespace Groundwork

/-- Named values for the tokens of a definition. -/
structure Context where
  scopes : Table Value
  strict : List String
  deriving Repr, Inhabited

namespace Context

/-- No scopes. -/
def empty : Context := ⟨[], []⟩

/-- Adds a scope. -/
def withScope (c : Context) (name : String) (value : Value) : Context :=
  { c with scopes := c.scopes.file name value }

/-- Adds a scope in which every path must have a value. -/
def withStrictScope (c : Context) (name : String) (value : Value) : Context :=
  ⟨c.scopes.file name value, name :: c.strict⟩

/-- Whether a name is a scope. -/
def hasScope (c : Context) (name : String) : Bool := c.scopes.has name

/-- All scopes as one object. -/
def toValue (c : Context) : Value := .obj c.scopes

/-- The name by which a failed look-up is reported: the field below the scope, or the whole expression. -/
def missingName (expression : String) : Path → String
  | .field name :: _ => name
  | _ => expression

/-- The value of an expression; `none` if it is to be left in place. -/
def resolve (c : Context) (expression : String) : Except CompileError (Option Value) :=
  match Path.parse? expression with
  | some (.field root :: path) =>
      match c.scopes.lookup root with
      | none => .ok none
      | some scope =>
          let found := Path.find? scope path
          if c.strict.contains root then
            match found with
            | none | some .null => .error (.unresolvedVariable (missingName expression path))
            | some v => .ok (some v)
          else .ok found
  | _ => .ok none

/-- Puts values in the place of all tokens that have one. -/
def apply (c : Context) (v : Value) : Except CompileError Value :=
  Template.mapExpressions c.resolve v

end Context

end Groundwork
