import Groundwork.Definition.Basic
import Groundwork.Failure
import Groundwork.File.Path

/-!
# Building modules

A module whose source names a directory that exists is built: the builder is asked for an image, which
takes the place of the source.  Modules are built in the order of their declaration, and the first failure
ends the building; what was built before stays.

Asking whether a directory exists and building may have any effects.
-/

namespace Groundwork.Definition

/-- Whether a source has the form of a directory rather than of an image. -/
def looksLocal (source : String) : Bool :=
  let s := source.toList
  Text.startsWith ['.', '/'] s || Text.startsWith ['.', '.', '/'] s || Text.startsWith ['/'] s

/-- How far the building has come. -/
structure Building where
  built : Nat
  failure : Option PluginError
  deriving Repr

section

variable {m : Type → Type u} [Monad m]

/-- The directory that the source of a module names, if it exists. -/
def localDirectory (isDirectory : String → m Bool) (base : String) (d : ModuleDef) : m (Option String) := do
  let path := File.join base d.source
  if !looksLocal d.source then return none
  return if ← isDirectory path then some path else none

/-- Builds one module if it names a directory and nothing has failed before. -/
def buildModule (isDirectory : String → m Bool) (base : String)
    (build : PluginKind → String → m (Except PluginError String)) (d : ModuleDef) :
    StateT Building m ModuleDef := do
  let s ← get
  if s.failure.isSome then return d
  match ← StateT.lift (localDirectory isDirectory base d) with
  | none => return d
  | some directory =>
      match ← StateT.lift (build d.plugin directory) with
      | .ok image => do
          set { s with built := s.built + 1 }
          return { d with source := image }
      | .error e => do
          set { s with failure := some e }
          return d

/-- Builds all modules of a definition: how many were built, or the first failure, and the definition with
the images. -/
def buildModules (isDirectory : String → m Bool) (base : String)
    (build : PluginKind → String → m (Except PluginError String)) (d : Definition) :
    m (Except PluginError Nat × Definition) := do
  let (d, s) ← (d.traverse (buildModule isDirectory base build)).run ⟨0, none⟩
  match s.failure with
  | none => return (.ok s.built, d)
  | some e => return (.error e, d)

end

end Groundwork.Definition
