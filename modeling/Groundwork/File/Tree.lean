import Groundwork.Data.Table
import Groundwork.Failure
import Groundwork.File.Path

/-!
# File trees

A model of the file system: directories, texts, and links to other paths.  An entry is known by the names
that lead to it from the root.  Paths are walked name by name; a link on the way is replaced by what it
points to, at most forty times.
-/

namespace Groundwork

/-- What stands at a place of the tree. -/
inductive FileEntry where
  | text (s : String)
  | directory
  | link (target : String)
  deriving DecidableEq, Repr, Inhabited

/-- All entries below the root, and the working directory. -/
structure FileTree where
  entries : List (List String × FileEntry)
  workingDirectory : List String
  deriving Repr, Inhabited

namespace FileTree

/-- Nothing but the root. -/
def empty : FileTree := ⟨[], []⟩

/-- The entry at a place. -/
def standsAt? (t : FileTree) (place : List String) : Option FileEntry :=
  if place.isEmpty then some .directory else t.entries.lookup place

/-- Writes an entry. -/
def put (t : FileTree) (place : List String) (e : FileEntry) : FileTree :=
  { t with entries := t.entries.filter (·.1 ≠ place) ++ [(place, e)] }

/-- Removes an entry. -/
def erase (t : FileTree) (place : List String) : FileTree :=
  { t with entries := t.entries.filter (·.1 ≠ place) }

/-- The names of a path.  A stroke at the end asks for a directory, as a dot does. -/
def namesOf (path : String) : List String :=
  let pieces := (Text.splitOn '/' path.toList).map String.ofList
  let names := pieces.filter (· ≠ "")
  if Text.endsWith ['/'] path.toList then names ++ ["."] else names

/-- How many links may be met on one walk. -/
def maxLinks : Nat := 40

/-- A place, and what stands there if its directory is there. -/
abbrev Found := List String × Option FileEntry

/-- Walks names from a directory, through at most so many links.  The last name is followed through links
only if asked for. -/
def walk (t : FileTree) (follow : Bool) (links : Nat) (current : List String) :
    List String → Except FileError Found
  | [] => .ok (current, some .directory)
  | name :: rest =>
      if name = "." then walk t follow links current rest
      else if name = ".." then walk t follow links current.dropLast rest
      else
        let next := current ++ [name]
        match t.standsAt? next with
        | none => if rest.isEmpty then .ok (next, none) else .error .notFound
        | some .directory => walk t follow links next rest
        | some (.text s) => if rest.isEmpty then .ok (next, some (.text s)) else .error .notDirectory
        | some (.link target) =>
            if rest.isEmpty && !follow then .ok (next, some (.link target))
            else
              match links with
              | 0 => .error .tooManyLinks
              | links + 1 =>
                  let start := if File.isAbsolute target then [] else current
                  walk t follow links start (namesOf target ++ rest)
termination_by names => (links, names.length)

/-- Walks a path. -/
def resolve (t : FileTree) (follow : Bool) (path : String) : Except FileError Found :=
  if path.isEmpty then .error .notFound
  else walk t follow maxLinks (if File.isAbsolute path then [] else t.workingDirectory) (namesOf path)

/-- What a path leads to. -/
def find? (t : FileTree) (path : String) : Option FileEntry :=
  match t.resolve true path with
  | .ok (_, e) => e
  | .error _ => none

/-- Whether a path leads to anything. -/
def pathExists (t : FileTree) (path : String) : Bool := (t.find? path).isSome

/-- Whether a path leads to a directory. -/
def isDirectory (t : FileTree) (path : String) : Bool := t.find? path = some .directory

/-- Whether a path leads to a text. -/
def isFile (t : FileTree) (path : String) : Bool :=
  match t.find? path with
  | some (.text _) => true
  | _ => false

/-- Reads a text. -/
def readText (t : FileTree) (path : String) : Except FileError String := do
  match ← t.resolve true path with
  | (_, some (.text s)) => .ok s
  | (_, some _) => .error .isDirectory
  | (_, none) => .error .notFound

/-- Writes a text, in the place of one that is there. -/
def writeText (t : FileTree) (path text : String) : Except FileError FileTree := do
  match ← t.resolve true path with
  | (_, some .directory) => .error .isDirectory
  | (place, _) => .ok (t.put place (.text text))

/-- Writes a text where nothing is. -/
def createText (t : FileTree) (path text : String) : Except FileError FileTree := do
  match ← t.resolve false path with
  | (place, none) => .ok (t.put place (.text text))
  | (_, some _) => .error .alreadyExists

/-- Removes a text or a link. -/
def remove (t : FileTree) (path : String) : Except FileError FileTree := do
  match ← t.resolve false path with
  | (_, none) => .error .notFound
  | (_, some .directory) => .error .isDirectory
  | (place, some _) => .ok (t.erase place)

/-- Moves a text or a link to another path, in the place of one that is there. -/
def rename (t : FileTree) (source target : String) : Except FileError FileTree := do
  match ← t.resolve false source, ← t.resolve false target with
  | (_, none), _ => .error .notFound
  | (_, some .directory), _ => .error .isDirectory
  | (_, some _), (_, some .directory) => .error .isDirectory
  | (place, some e), (next, _) => .ok ((t.erase place).put next e)

/-- Makes a link. -/
def makeLink (t : FileTree) (path target : String) : Except FileError FileTree := do
  match ← t.resolve false path with
  | (place, none) => .ok (t.put place (.link target))
  | (_, some _) => .error .alreadyExists

/-- Makes a directory. -/
def makeDirectory (t : FileTree) (path : String) : Except FileError FileTree := do
  match ← t.resolve false path with
  | (place, none) => .ok (t.put place .directory)
  | (_, some _) => .error .alreadyExists

/-- Makes a directory and those on the way to it that are missing; at most `depth` of them. -/
def makeDirectoriesFor (depth : Nat) (t : FileTree) (path : String) : Except FileError FileTree :=
  if path.isEmpty then .ok t
  else
    let settle (t : FileTree) (e : FileError) : Except FileError FileTree :=
      if t.isDirectory path then .ok t else .error e
    match t.makeDirectory path, depth, File.parent? path with
    | .ok next, _, _ => .ok next
    | .error .notFound, depth + 1, some parent =>
        match makeDirectoriesFor depth t parent with
        | .error e => .error e
        | .ok t =>
            match t.makeDirectory path with
            | .ok next => .ok next
            | .error e => settle t e
    | .error e, _, _ => settle t e

/-- Makes a directory and those on the way to it that are missing. -/
def makeDirectories (t : FileTree) (path : String) : Except FileError FileTree :=
  makeDirectoriesFor path.length t path

/-- The places of all texts and links below a directory, by the names that lead there from it. -/
def leaves (t : FileTree) (directory : List String) : List (List String) :=
  t.entries.filterMap fun (place, e) =>
    if e = .directory then none
    else if directory.isPrefixOf place then some (place.drop directory.length)
    else none

theorem lookup_filter_self (l : List (List String × FileEntry)) (place : List String) :
    (l.filter (·.1 ≠ place)).lookup place = none := by
  induction l with
  | nil => rfl
  | cons p l ih =>
    by_cases hq : p.1 = place
    · simpa [List.filter_cons, hq] using ih
    · have hne : (place == p.1) = false := by simpa using fun e => hq e.symm
      obtain ⟨a, b⟩ := p
      simp only at hq hne
      simpa [List.filter_cons, hq, List.lookup_cons, hne] using ih

/-- An entry that was written is found where it was written. -/
theorem standsAt?_put (t : FileTree) {place : List String} (e : FileEntry) (h : place ≠ []) :
    (t.put place e).standsAt? place = some e := by
  rw [standsAt?, if_neg (by simpa using h), put, List.lookup_append, lookup_filter_self]
  simp

/-- An entry that was removed is not found. -/
theorem standsAt?_erase (t : FileTree) {place : List String} (h : place ≠ []) :
    (t.erase place).standsAt? place = none := by
  rw [standsAt?, if_neg (by simpa using h), erase, lookup_filter_self]

end FileTree

end Groundwork
