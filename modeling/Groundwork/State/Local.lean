import Groundwork.File.Call
import Groundwork.State.Store

/-!
# Stores of files

The record of a key is a file below a base directory, and its lock is a file beside it.  A record is written
to a third file first and then moved, so that nobody reads half a record; a lock is written only where no
file is, so that of two that try one fails.
-/

namespace Groundwork.LocalStore

/-- The name of the directory where records are kept by default. -/
def defaultDirectory : String := ".infragraph"

/-- Programs of a store of files. -/
abbrev StoreProgram := ExceptT StateError FileProgram

/-- The file of the record of a key. -/
def recordPath (base : String) (key : StateKey) : String := File.join base key.relativePath

/-- The file of the lock of a key. -/
def lockPath (base : String) (key : StateKey) : String := File.withExtension (recordPath base key) "lock"

/-- The file where a record is written before it is moved. -/
def draftPath (base : String) (key : StateKey) : String := File.withExtension (recordPath base key) "json.tmp"

/-- Asks the file system. -/
def ask (q : FileCall α) : StoreProgram α := ExceptT.lift (Program.call q)

/-- Asks the file system and words its refusal. -/
def attempt (q : FileCall (Except FileError α)) (word : String → StateError) : StoreProgram α := do
  match ← ask q with
  | .ok a => return a
  | .error e => throw (word e.message)

/-- Writes a line of the log. -/
def note (level : Level) (text : String) : StoreProgram Unit := ExceptT.lift (Program.note level text)

/-- Makes the directory of a file. -/
def makeParent (path : String) : StoreProgram Unit := do
  match File.parent? path with
  | none => return
  | some parent =>
      attempt (.makeDirectories parent) fun m => .storage ("Failed to create " ++ parent ++ ": " ++ m)

/-- The lock of a key. -/
def lock? (base : String) (key : StateKey) : StoreProgram (Option Lock) := do
  let path := lockPath base key
  match ← ask (.readText path) with
  | .error .notFound => return none
  | .error e => throw (.corrupted ("Failed to read lock file: " ++ e.message))
  | .ok text =>
      match Lock.ofText? text with
      | some l => return some l
      | none => throw (.corrupted ("Failed to parse lock file " ++ path ++ ": not a lock"))

/-- Writes a lock, which must not be there. -/
def writeLock (base : String) (l : Lock) : StoreProgram Unit := do
  let path := lockPath base l.key
  makeParent path
  attempt (.createText path l.render) fun m => .lockFailed ("Failed to create lock file: " ++ m)

/-- Removes the lock of a key, if it is there. -/
def removeLock (base : String) (key : StateKey) : StoreProgram Unit := do
  match ← ask (.remove (lockPath base key)) with
  | .ok () | .error .notFound => return
  | .error e => throw (.lockFailed ("Failed to delete lock file: " ++ e.message))

/-- The record of a key. -/
def load (base : String) (key : StateKey) : StoreProgram (Option Record) := do
  let path := recordPath base key
  match ← ask (.readText path) with
  | .error .notFound => do
      note .debug ("No state for " ++ key.render ++ " at " ++ path)
      return none
  | .error e => throw (.storage ("Failed to read " ++ path ++ ": " ++ e.message))
  | .ok text => do
      note .info ("Loading state from: " ++ path)
      match Record.ofText? text with
      | none => throw (.corrupted ("Failed to parse " ++ path ++ ": not a record"))
      | some r => return some (← liftExcept r.checkVersion)

/-- Writes a record under its key. -/
def save (base : String) (r : Record) : StoreProgram Unit := do
  let path := recordPath base r.key
  makeParent path
  note .info ("Saving state to: " ++ path)
  let draft := draftPath base r.key
  attempt (.writeText draft r.render) fun m => .storage ("Failed to create temp state file: " ++ m)
  attempt (.rename draft path) fun m => .storage ("Failed to rename state file: " ++ m)
  note .debug ("State saved for " ++ r.key.render)

/-- Removes the record and the lock of a key. -/
def delete (base : String) (key : StateKey) : StoreProgram Unit := do
  let path := recordPath base key
  match ← ask (.remove path) with
  | .ok () => note .info ("Deleted state file: " ++ path)
  | .error .notFound => pure ()
  | .error e => throw (.storage ("Failed to delete state file: " ++ e.message))
  removeLock base key

/-- Takes the lock of a key.  One that has expired is taken over. -/
def acquire (base : String) (key : StateKey) (operation : String) : StoreProgram Lock := do
  match ← lock? base key with
  | none => pure ()
  | some l =>
      if !l.isExpired (← ExceptT.lift Program.clock) then
        note .warn ("State " ++ key.render ++ " is locked by " ++ l.holder)
        throw l.refusal
      note .debug ("Expired lock on " ++ key.render ++ " found, taking over")
      removeLock base key
  let now ← ExceptT.lift Program.clock
  let id ← ExceptT.lift Program.freshId
  let l := Lock.take now id (← ExceptT.lift Program.holder) key operation
  writeLock base l
  note .info s!"Acquired state lock on {key.render}: {l.id} (expires in {Lock.lifetime}s)"
  return l

/-- Gives a lock back. -/
def release (base : String) (key : StateKey) (id : String) : StoreProgram Unit := do
  match ← lock? base key with
  | none => return
  | some l =>
      if l.id = id then
        removeLock base key
        note .info ("Released state lock on " ++ key.render)
      else
        note .debug ("Lock id mismatch on " ++ key.render ++ ": expected " ++ id ++ ", found " ++ l.id)

/-- Removes the lock of a key, whoever holds it. -/
def forceUnlock (base : String) (key : StateKey) : StoreProgram Unit := do
  note .warn ("Force unlocking state " ++ key.render)
  removeLock base key

/-- Whether the lock of a key is held. -/
def isLocked (base : String) (key : StateKey) : StoreProgram Bool := do
  match ← lock? base key with
  | none => return false
  | some l => return !l.isExpired (← ExceptT.lift Program.clock)

/-- The store of files below a directory. -/
def store (base : String) : Store FileProgram where
  kind := "local"
  load := load base
  save := save base
  delete := delete base
  hasRecord key := ask (.pathExists (recordPath base key))
  acquire := acquire base
  release := release base
  forceUnlock := forceUnlock base
  lock? := lock? base
  isLocked := isLocked base

end Groundwork.LocalStore
