import Groundwork.Interchange.Readable

/-!
# Requests

A request is an object whose fields are read one by one.  A field that is missing and one that is null are the
same.  A field that cannot be read ends the reading, and its name is told.

Main statement: a field that must be there is read from what stands there (`need_eq`).
-/

namespace Groundwork

/-- The name of a field that cannot be read. -/
structure BadField where
  name : String
  deriving DecidableEq, Repr, Inhabited

/-- The fields of a request. -/
abbrev Request := Table Value

namespace Request

open Readable (read? Named)

/-- A field in any form; a missing one is null. -/
def whole (r : Request) (k : String) : Value := (r.lookup k).getD .null

/-- What a value means as the field of this name. -/
def decode [Readable α] (k : String) (v : Value) : Except BadField α :=
  match read? v with
  | some a => .ok a
  | none => .error ⟨k⟩

/-- A field that must be there. -/
def need [Readable α] (r : Request) (k : String) : Except BadField α := decode k (whole r k)

/-- A field that may be missing. -/
def opt [Readable α] (r : Request) (k : String) : Except BadField (Option α) :=
  match whole r k with
  | .null => .ok none
  | v => (decode k v).map some

/-- A text that must be there. -/
def text (r : Request) (k : String) : Except BadField String := need r k

/-- A text, or another one if it is missing. -/
def textOr (r : Request) (k default : String) : Except BadField String := (opt r k).map (·.getD default)

/-- A truth value; a missing one is false. -/
def flag (r : Request) (k : String) : Except BadField Bool := (opt r k).map (·.getD false)

/-- A list; a missing one is empty. -/
def many [Readable α] (r : Request) (k : String) : Except BadField (List α) := (opt r k).map (·.getD [])

/-- A table; a missing one is empty. -/
def table [Readable α] (r : Request) (k : String) : Except BadField (Table α) :=
  (opt r k).map fun t => (t.map Named.table).getD []

/-- A graph; a missing one is empty. -/
def graphOr [Identified N] [Readable N] (r : Request) (k : String) : Except BadField (Graph N) :=
  (opt r k).map (·.getD Graph.empty)

/-- The requests in a list. -/
def objects (r : Request) (k : String) : Except BadField (List Request) :=
  (many r k).map fun (l : List (Named Value)) => l.map Named.table

theorem need_eq [Readable α] {r : Request} {k : String} {v : Value} {a : α} (h : r.lookup k = some v)
    (ha : read? v = some a) : need r k = .ok a := by
  simp [need, decode, whole, h, ha]

end Request

end Groundwork
