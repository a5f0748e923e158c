import Groundwork.Effect.Ambient
import Groundwork.File.Tree

/-!
# Asking the file system

The calls that programs make to the file system, each of which happens as one step, and their answers where
the file system is a tree.
-/

namespace Groundwork

/-- Calls to the file system. -/
inductive FileCall : Type → Type where
  | readText (path : String) : FileCall (Except FileError String)
  /-- Writes a text, in the place of one that is there. -/
  | writeText (path text : String) : FileCall (Except FileError Unit)
  /-- Writes a text where nothing is. -/
  | createText (path text : String) : FileCall (Except FileError Unit)
  | remove (path : String) : FileCall (Except FileError Unit)
  | rename (source target : String) : FileCall (Except FileError Unit)
  | makeDirectories (path : String) : FileCall (Except FileError Unit)
  | pathExists (path : String) : FileCall Bool
  | isFile (path : String) : FileCall Bool
  | isDirectory (path : String) : FileCall Bool

/-- Programs that use the file system. -/
abbrev FileProgram := Program (Asking FileCall)

/-- A file tree and its surroundings. -/
structure FileWorld where
  tree : FileTree
  ambience : Ambience
  deriving Repr, Inhabited

namespace FileWorld

/-- Changes the tree if that is possible. -/
def change (f : FileTree → Except FileError FileTree) : StateM FileWorld (Except FileError Unit) :=
  modifyGet fun w =>
    match f w.tree with
    | .ok tree => (.ok (), { w with tree })
    | .error e => (.error e, w)

/-- Answers a call. -/
def answer {α : Type} (q : FileCall α) : StateM FileWorld α :=
  match q with
  | .readText path => return (← get).tree.readText path
  | .writeText path text => change (·.writeText path text)
  | .createText path text => change (·.createText path text)
  | .remove path => change (·.remove path)
  | .rename source target => change (·.rename source target)
  | .makeDirectories path => change (·.makeDirectories path)
  | .pathExists path => return (← get).tree.pathExists path
  | .isFile path => return (← get).tree.isFile path
  | .isDirectory path => return (← get).tree.isDirectory path

/-- Runs a program on a tree. -/
def run (p : FileProgram α) : StateM FileWorld α :=
  p.run fun q =>
    match q with
    | .first q => modifyGet fun w =>
        let (a, ambience) := (Ambience.answer q).run w.ambience
        (a, { w with ambience })
    | .second q => answer q

end FileWorld

end Groundwork
