import Groundwork.Failure
import Groundwork.State.Lock
import Groundwork.State.Record

/-!
# Stores

A store keeps a record and a lock under each key.  What a store can do is a structure, so that those who use
one need not know where it keeps them.
-/

namespace Groundwork

/-- What a store can do, with effects in `m`. -/
structure Store (m : Type → Type u) where
  /-- The name of the kind of store. -/
  kind : String
  /-- The record of a key, if there is one. -/
  load : StateKey → ExceptT StateError m (Option Record)
  /-- Writes a record under its own key. -/
  save : Record → ExceptT StateError m Unit
  /-- Removes the record and the lock of a key. -/
  delete : StateKey → ExceptT StateError m Unit
  /-- Whether a key has a record. -/
  hasRecord : StateKey → ExceptT StateError m Bool
  /-- Takes the lock of a key for an operation; it must not be held. -/
  acquire : StateKey → String → ExceptT StateError m Lock
  /-- Gives a lock back, by its id; another lock stays. -/
  release : StateKey → String → ExceptT StateError m Unit
  /-- Removes the lock of a key, whoever holds it. -/
  forceUnlock : StateKey → ExceptT StateError m Unit
  /-- The lock of a key, held or expired. -/
  lock? : StateKey → ExceptT StateError m (Option Lock)
  /-- Whether the lock of a key is held. -/
  isLocked : StateKey → ExceptT StateError m Bool

namespace Store

/-- A store whose operations are carried out elsewhere. -/
def mapEffects (f : {α : Type} → m α → n α) (s : Store m) : Store n where
  kind := s.kind
  load key := f (s.load key)
  save r := f (s.save r)
  delete key := f (s.delete key)
  hasRecord key := f (s.hasRecord key)
  acquire key operation := f (s.acquire key operation)
  release key id := f (s.release key id)
  forceUnlock key := f (s.forceUnlock key)
  lock? key := f (s.lock? key)
  isLocked key := f (s.isLocked key)

end Store

/-- The refusal to take a lock that somebody holds. -/
def Lock.refusal (l : Lock) : StateError := .lockedByOther l.holder (l.acquired.renderWith "+00:00".toList)

/-- Checks the version of a record that was read. -/
def Record.checkVersion (r : Record) : Except StateError Record :=
  if r.version = currentVersion then .ok r else .error (.versionMismatch currentVersion r.version)

end Groundwork
