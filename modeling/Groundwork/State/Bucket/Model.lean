import Groundwork.State.Bucket

/-!
# A model of a bucket

The objects of a bucket by their names, and faults that are still to happen: each of them makes one call of
its kind fail and has no other effect.
-/

namespace Groundwork

/-- The kinds of calls. -/
inductive BucketMethod where
  | get | put | delete | head
  deriving DecidableEq, Repr, Inhabited

/-- The kind that a request names. -/
def BucketMethod.ofName? : String → Option BucketMethod
  | "GET" => some .get
  | "PUT" => some .put
  | "DELETE" => some .delete
  | "HEAD" => some .head
  | _ => none

/-- A bucket and its surroundings. -/
structure BucketWorld where
  /-- The texts of the objects; one that holds other bytes has none. -/
  objects : Table (Option String)
  faults : List (BucketMethod × BucketRefusal)
  ambience : Ambience
  deriving Repr, Inhabited

namespace BucketWorld

/-- Carries out a call unless a fault is due. -/
def unlessFault (method : BucketMethod) (act : StateM BucketWorld (Except BucketRefusal α)) :
    StateM BucketWorld (Except BucketRefusal α) := do
  let w ← get
  match w.faults.find? (·.1 = method) with
  | none => act
  | some fault =>
      set { w with faults := w.faults.erase fault }
      return .error fault.2

/-- Answers a call. -/
def answer {α : Type} (q : BucketCall α) : StateM BucketWorld α :=
  match q with
  | .get name => unlessFault .get do
      match (← get).objects.lookup name with
      | some o => return .ok o
      | none => return .error ⟨"NoSuchKey"⟩
  | .put name text => unlessFault .put do
      modify fun w => { w with objects := Table.put w.objects name (some text) }
      return .ok ()
  | .delete name => unlessFault .delete do
      modify fun w => { w with objects := Table.erase w.objects name }
      return .ok ()
  | .head name => unlessFault .head do
      if Table.has (← get).objects name then return .ok () else return .error ⟨"NotFound"⟩

/-- Runs a program on a bucket. -/
def run (p : BucketProgram α) : StateM BucketWorld α :=
  p.run fun q =>
    match q with
    | .first q => modifyGet fun w =>
        let (a, ambience) := (Ambience.answer q).run w.ambience
        (a, { w with ambience })
    | .second q => answer q

end BucketWorld

end Groundwork
