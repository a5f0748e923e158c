import Groundwork.Text.Case

/-!
# Kinds of plugins

A module is carried out by one of two provisioning programs.
-/

namespace Groundwork

/-- A provisioning program. -/
inductive PluginKind where
  | pulumi
  | opentofu
  deriving DecidableEq, Repr, Inhabited

namespace PluginKind

/-- All kinds. -/
def all : List PluginKind := [.pulumi, .opentofu]

/-- The name of a kind. -/
def name : PluginKind → String
  | .pulumi => "pulumi"
  | .opentofu => "opentofu"

/-- The kind that a document names. -/
def ofName? (s : String) : Option PluginKind :=
  if s = "pulumi" then some .pulumi
  else if s = "opentofu" ∨ s = "terraform" then some .opentofu
  else none

/-- The kind that a person names, in letters of either case; else the message. -/
def parse (s : String) : Except String PluginKind :=
  let small := String.ofList (Text.toLower s.toList)
  match ofName? small with
  | some k => .ok k
  | none => .error ("unknown plugin: " ++ small)

end PluginKind

end Groundwork
