import Groundwork.Data.Value

/-!
# Reading records from values

A record is read from an object by the names of its parts, or from an array by their order; an array may
break off early but not run on.  Unknown fields are ignored, and a known name may stand only once.  A part
is needed, optional (then null counts as missing), or has a default that only a missing part takes.
-/

namespace Groundwork.Decode

/-- The parts of a record with these names. -/
def parts (names : List String) : Value → Option (Table Value)
  | .obj fields =>
      let known := (Table.keys fields).filter names.contains
      if known.eraseDups.length = known.length then some fields else none
  | .arr items => if items.length ≤ names.length then some (names.zip items) else none
  | _ => none

/-- The parts of a record that is read from an object only. -/
def fields (names : List String) : Value → Option (Table Value)
  | .obj fs => parts names (.obj fs)
  | _ => none

/-- A part that must be there. -/
def needed (decode : Value → Option α) (t : Table Value) (k : String) : Option α :=
  (t.lookup k).bind decode

/-- A part that may be missing or null. -/
def optional (decode : Value → Option α) (t : Table Value) (k : String) : Option (Option α) :=
  match t.lookup k with
  | none | some .null => some none
  | some v => (decode v).map some

/-- A part that may be missing. -/
def defaulted (default : α) (decode : Value → Option α) (t : Table Value) (k : String) : Option α :=
  match t.lookup k with
  | none => some default
  | some v => decode v

/-- A part of any form; a missing one is null. -/
def whole (t : Table Value) (k : String) : Value := (t.lookup k).getD .null

/-- A part of any form that may be missing or null. -/
def wholeOption (t : Table Value) (k : String) : Option Value :=
  match t.lookup k with
  | none | some .null => none
  | some v => some v

/-- A text. -/
def text : Value → Option String := Value.str?

/-- A truth value. -/
def truth : Value → Option Bool
  | .bool b => some b
  | _ => none

/-- A natural number below a bound. -/
def natural (bound : Nat) : Value → Option Nat
  | .num (.int n) => if 0 ≤ n ∧ n < bound then some n.toNat else none
  | _ => none

/-- A list. -/
def list (decode : Value → Option α) : Value → Option (List α)
  | .arr items => items.mapM decode
  | _ => none

/-- A table in the order of the document; of equal names the last entry counts. -/
def table (decode : Value → Option α) : Value → Option (Table α)
  | .obj fs => (fs.mapM fun p => (decode p.2).map fun a => (p.1, a)).map Table.ofPairs
  | _ => none

/-- One of several names, alone or as the single field of an object that holds null. -/
def variant (ofName : String → Option α) : Value → Option α
  | .str s => ofName s
  | .obj [(k, .null)] => ofName k
  | _ => none

end Groundwork.Decode

namespace Groundwork.Encode

/-- A field that is left out if there is nothing to write. -/
def optional (k : String) (f : α → Value) : Option α → List (String × Value)
  | none => []
  | some a => [(k, f a)]

end Groundwork.Encode
