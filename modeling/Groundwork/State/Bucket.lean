import Groundwork.Effect.Ambient
import Groundwork.State.Store
import Groundwork.Text.Search

/-!
# Stores in a bucket

The record and the lock of a key are objects of a bucket, under the same names as the files of a store of
files, below a common start.  An object is written in the place of one that is there, so that of two that
take a lock at the same time the second overwrites the first.
-/

namespace Groundwork

/-- A refusal of the bucket, by its code. -/
structure BucketRefusal where
  code : String
  deriving DecidableEq, Repr, Inhabited

/-- Calls to a bucket.  An object without text holds bytes that encode none. -/
inductive BucketCall : Type → Type where
  | get (name : String) : BucketCall (Except BucketRefusal (Option String))
  | put (name text : String) : BucketCall (Except BucketRefusal Unit)
  | delete (name : String) : BucketCall (Except BucketRefusal Unit)
  /-- Asks for an object without its text. -/
  | head (name : String) : BucketCall (Except BucketRefusal Unit)

/-- Programs that use a bucket. -/
abbrev BucketProgram := Program (Asking BucketCall)

/-- Where a store keeps its objects. -/
structure BucketPlace where
  bucket : String
  /-- What the names of all objects start with. -/
  start : String
  deriving DecidableEq, Repr, Inhabited

namespace BucketStore

/-- Programs of a store in a bucket. -/
abbrev StoreProgram := ExceptT StateError BucketProgram

/-- A text without strokes at its ends. -/
def trimStrokes (s : List Char) : List Char :=
  ((s.dropWhile (· = '/')).reverse.dropWhile (· = '/')).reverse

/-- The start of the names of all objects: a directory without strokes in front, if there is one. -/
def startOf (directory : Option String) : String :=
  match directory.map fun d => trimStrokes d.toList with
  | some (c :: cs) => String.ofList (c :: cs) ++ "/"
  | _ => ""

/-- The place of a store. -/
def place (bucket : String) (directory : Option String) : BucketPlace := ⟨bucket, startOf directory⟩

/-- The object of the record of a key. -/
def recordName (p : BucketPlace) (key : StateKey) : String := p.start ++ key.relativePath

/-- The object of the lock of a key. -/
def lockName (p : BucketPlace) (key : StateKey) : String :=
  let name := (recordName p key).toList
  String.ofList ((Text.dropFinish ".json".toList name).getD name) ++ ".lock"

/-- Writes a line of the log. -/
def note (level : Level) (text : String) : StoreProgram Unit := ExceptT.lift (Program.note level text)

/-- The text of an object, if it is there. -/
def get? (name : String) : StoreProgram (Option String) := do
  match ← ExceptT.lift (Program.call (.get name)) with
  | .ok (some text) => return some text
  | .ok none => throw (.corrupted "Invalid UTF-8 in S3 object")
  | .error r => if r.code = "NoSuchKey" then return none else throw (.bucket "S3 get error")

/-- Writes an object. -/
def put (name text : String) : StoreProgram Unit := do
  match ← ExceptT.lift (Program.call (.put name text)) with
  | .ok () => return
  | .error _ => throw (.bucket "S3 put error")

/-- Removes an object; one that is not there counts as removed. -/
def remove (name : String) : StoreProgram Unit := do
  match ← ExceptT.lift (Program.call (.delete name)) with
  | .ok () => return
  | .error _ => throw (.bucket "S3 delete error")

/-- Whether an object is there. -/
def has (name : String) : StoreProgram Bool := do
  match ← ExceptT.lift (Program.call (.head name)) with
  | .ok () => return true
  | .error r => if r.code = "NotFound" then return false else throw (.bucket "S3 head error")

/-- The lock of a key. -/
def lock? (p : BucketPlace) (key : StateKey) : StoreProgram (Option Lock) := do
  match ← get? (lockName p key) with
  | none => return none
  | some text =>
      match Lock.ofText? text with
      | some l => return some l
      | none => throw (.corrupted "Failed to parse lock: not a lock")

/-- The record of a key. -/
def load (p : BucketPlace) (key : StateKey) : StoreProgram (Option Record) := do
  let name := recordName p key
  note .debug ("Loading state from s3://" ++ p.bucket ++ "/" ++ name)
  match ← get? name with
  | none => do
      note .debug ("No state found for " ++ key.render)
      return none
  | some text =>
      match Record.ofText? text with
      | none => throw (.corrupted "Failed to parse state: not a record")
      | some r => do
          let r ← liftExcept r.checkVersion
          note .info s!"Loaded state for {key.render} ({r.graph.size} nodes)"
          return some r

/-- Writes a record under its key. -/
def save (p : BucketPlace) (r : Record) : StoreProgram Unit := do
  let name := recordName p r.key
  note .info ("Saving state to s3://" ++ p.bucket ++ "/" ++ name)
  put name r.render

/-- Removes the record and the lock of a key. -/
def delete (p : BucketPlace) (key : StateKey) : StoreProgram Unit := do
  let name := recordName p key
  note .info ("Deleting state from s3://" ++ p.bucket ++ "/" ++ name)
  remove name
  remove (lockName p key)

/-- Takes the lock of a key.  One that has expired is overwritten. -/
def acquire (p : BucketPlace) (key : StateKey) (operation : String) : StoreProgram Lock := do
  match ← lock? p key with
  | none => pure ()
  | some l =>
      if !l.isExpired (← ExceptT.lift Program.clock) then
        note .warn ("State " ++ key.render ++ " is locked by " ++ l.holder)
        throw l.refusal
      note .debug ("Expired lock on " ++ key.render ++ " found, taking over")
  let now ← ExceptT.lift Program.clock
  let id ← ExceptT.lift Program.freshId
  let l := Lock.take now id (← ExceptT.lift Program.holder) key operation
  put (lockName p key) l.render
  note .info s!"Acquired state lock on {key.render}: {l.id} (expires in {Lock.lifetime}s)"
  return l

/-- Gives a lock back. -/
def release (p : BucketPlace) (key : StateKey) (id : String) : StoreProgram Unit := do
  match ← lock? p key with
  | none => return
  | some l =>
      if l.id = id then
        remove (lockName p key)
        note .info ("Released state lock on " ++ key.render)
      else
        note .debug ("Lock id mismatch on " ++ key.render ++ ": expected " ++ id ++ ", found " ++ l.id)

/-- Removes the lock of a key, whoever holds it. -/
def forceUnlock (p : BucketPlace) (key : StateKey) : StoreProgram Unit := do
  note .warn ("Force unlocking state " ++ key.render)
  remove (lockName p key)

/-- Whether the lock of a key is held. -/
def isLocked (p : BucketPlace) (key : StateKey) : StoreProgram Bool := do
  match ← lock? p key with
  | none => return false
  | some l => return !l.isExpired (← ExceptT.lift Program.clock)

/-- The store at a place of a bucket. -/
def store (p : BucketPlace) : Store BucketProgram where
  kind := "s3"
  load := load p
  save := save p
  delete := delete p
  hasRecord key := has (recordName p key)
  acquire := acquire p
  release := release p
  forceUnlock := forceUnlock p
  lock? := lock? p
  isLocked := isLocked p

end BucketStore

end Groundwork
