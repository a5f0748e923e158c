import Groundwork.Infrastructure.Status
import Groundwork.Json.Reader
import Groundwork.Json.Writer
import Groundwork.State.Key

/-!
# Locks

A lock keeps two runs on the same key apart.  It is held for half an hour at most, so that a run that
vanished does not block all others for ever.
-/

namespace Groundwork

/-- A lock on a key. -/
structure Lock where
  id : String
  key : StateKey
  /-- Who holds the lock. -/
  holder : String
  /-- What it is held for. -/
  operation : String
  acquired : Instant
  expires : Instant
  deriving DecidableEq, Repr, Inhabited

namespace Lock

/-- For how many seconds a lock holds. -/
def lifetime : Nat := 1800

/-- A lock that is taken now. -/
def take (now : Instant) (id holder : String) (key : StateKey) (operation : String) : Lock :=
  ⟨id, key, holder, operation, now, now.addSeconds lifetime⟩

/-- Whether a lock no longer holds. -/
def isExpired (now : Instant) (l : Lock) : Bool := l.expires.lt now

/-- The whole seconds that a lock still holds. -/
def remaining (now : Instant) (l : Lock) : Nat :=
  let borrow : Int := if l.expires.nanos < now.nanos then 1 else 0
  (l.expires.seconds - now.seconds - borrow).toNat

/-- A lock as a document. -/
def toValue (l : Lock) : Value :=
  .obj
    [("lock_id", .str l.id), ("key", l.key.toValue), ("holder", .str l.holder),
     ("operation", .str l.operation), ("acquired_at", Status.timeValue l.acquired),
     ("expires_at", Status.timeValue l.expires)]

/-- Reads a lock. -/
def ofValue? (v : Value) : Option Lock := do
  let t ← Decode.parts ["lock_id", "key", "holder", "operation", "acquired_at", "expires_at"] v
  return {
    id := ← Decode.needed Decode.text t "lock_id"
    key := ← Decode.needed StateKey.ofValue? t "key"
    holder := ← Decode.needed Decode.text t "holder"
    operation := ← Decode.needed Decode.text t "operation"
    acquired := ← Decode.needed Status.readTime? t "acquired_at"
    expires := ← Decode.needed Status.readTime? t "expires_at" }

/-- The text of a lock. -/
def render (l : Lock) : String := Json.pretty l.toValue

/-- Reads the text of a lock. -/
def ofText? (text : String) : Option Lock := (Json.document text).bind ofValue?

/-- A lock holds when it is taken. -/
theorem isExpired_take (now : Instant) (id holder : String) (key : StateKey) (operation : String) :
    (take now id holder key operation).isExpired now = false := by
  have h : ¬(now.seconds + (lifetime : Nat) < now.seconds) := by omega
  simp [isExpired, take, Instant.addSeconds, Instant.lt, h]

end Lock

end Groundwork
