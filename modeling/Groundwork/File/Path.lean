import Groundwork.Text.Search

/-!
# Paths of files

A path is a text of names with strokes between them.  Its text is kept as it was written: joining adds a
stroke only where one is missing, and nothing is simplified.

The extension of a name is what follows its last dot, unless the dot comes first.
-/

namespace Groundwork.File

/-- Whether a path starts at the root. -/
def isAbsolute (path : String) : Bool := Text.startsWith ['/'] path.toList

/-- A path below a base; an absolute path stands for itself. -/
def join (base path : String) : String :=
  if isAbsolute path then path
  else if base.isEmpty then path
  else if Text.endsWith ['/'] base.toList then base ++ path
  else base ++ "/" ++ path

/-- Splits a text behind its last stroke. -/
def splitLast (path : List Char) : List Char × List Char :=
  let name := (path.reverse.takeWhile (· ≠ '/')).reverse
  (path.take (path.length - name.length), name)

/-- A path read from its end, without strokes and without names that stand for their place there; the root
stays. -/
def dropTrailing : List Char → List Char
  | ['/'] => ['/']
  | '/' :: rest => dropTrailing rest
  | '.' :: '/' :: rest => if rest.isEmpty then ['/'] else dropTrailing rest
  | path => path

/-- A path without strokes, and without names that stand for their place, at its end. -/
def trimEnd (path : List Char) : List Char := (dropTrailing path.reverse).reverse

/-- The path of the directory that a path is in. -/
def parent? (path : String) : Option String :=
  let p := trimEnd path.toList
  let (front, name) := splitLast p
  if name.isEmpty then none else some (String.ofList (trimEnd front))

/-- The name at the end of a path, if it is one. -/
def name? (path : String) : Option String :=
  let name := (splitLast (trimEnd path.toList)).2
  if name.isEmpty || name = ['.'] || name = ['.', '.'] then none else some (String.ofList name)

/-- Splits a name at its last dot, into what comes before it and the extension. -/
def splitExtension (name : List Char) : List Char × Option (List Char) :=
  let ext := (name.reverse.takeWhile (· ≠ '.')).reverse
  let stem := name.take (name.length - ext.length - 1)
  if stem.isEmpty then (name, none) else (stem, some ext)

/-- The extension of a path. -/
def extension? (path : String) : Option String := do
  let name ← name? path
  (splitExtension name.toList).2.map String.ofList

/-- A path with another extension. -/
def withExtension (path ext : String) : String :=
  let p := trimEnd path.toList
  let (front, name) := splitLast p
  if name.isEmpty || name = ['.'] || name = ['.', '.'] then path
  else String.ofList (front ++ (splitExtension name).1) ++ "." ++ ext

theorem join_of_isAbsolute {base path : String} (h : isAbsolute path = true) : join base path = path := by
  simp [join, h]

end Groundwork.File
