import Groundwork.Data.Decode
import Groundwork.Time.Instant

/-!
# Actions, colors and progress of infrastructure nodes

A node has an action, the change planned for it, and a status, how far that change has come.  Its color
tells two incarnations of the same key apart: a replacement exists beside what it replaces.

`Status.moveTo` is the only way a status changes: it stamps the times of start and end.
-/

namespace Groundwork

/-- A planned change. -/
inductive Action where
  | create | update | delete | noOp
  deriving DecidableEq, Repr, Inhabited

/-- The name of an action. -/
def Action.name : Action → String
  | .create => "create"
  | .update => "update"
  | .delete => "delete"
  | .noOp => "no-op"

/-- The action of a name. -/
def Action.ofName? (s : String) : Option Action := [.create, .update, .delete, .noOp].find? (·.name = s)

/-- The color of an incarnation. -/
inductive Color where
  | blue | green
  deriving DecidableEq, Repr, Inhabited

/-- The other color. -/
def Color.flipped : Color → Color
  | .blue => .green
  | .green => .blue

/-- The name of a color. -/
def Color.name : Color → String
  | .blue => "blue"
  | .green => "green"

/-- The color of a name. -/
def Color.ofName? (s : String) : Option Color := [.blue, .green].find? (·.name = s)

theorem Color.flipped_flipped (c : Color) : c.flipped.flipped = c := by cases c <;> rfl

theorem Color.flipped_ne (c : Color) : c.flipped ≠ c := by cases c <;> decide

/-- How far a change has come. -/
inductive Phase where
  | pending | starting | applying | destroying | complete | error | unknown
  deriving DecidableEq, Repr, Inhabited

/-- The name of a phase. -/
def Phase.name : Phase → String
  | .pending => "pending"
  | .starting => "starting"
  | .applying => "applying"
  | .destroying => "destroying"
  | .complete => "complete"
  | .error => "error"
  | .unknown => "unknown"

/-- The phase of a name. -/
def Phase.ofName? (s : String) : Option Phase :=
  [.pending, .starting, .applying, .destroying, .complete, .error, .unknown].find? (·.name = s)

/-- How far the change of a node has come, and when it got there. -/
structure Status where
  phase : Phase
  message : Option String
  startTime : Option Instant
  endTime : Option Instant
  lastUpdated : Option Instant
  deriving DecidableEq, Repr, Inhabited

namespace Status

/-- Nothing has been done. -/
def pending : Status := ⟨.pending, none, none, none, none⟩

/-- All has been done, at some time before. -/
def completeAt (now : Instant) : Status := ⟨.complete, none, none, none, some now⟩

/-- Moves to a phase.  A start that follows no other one sets the start and clears the end; a finish sets
the end. -/
def moveTo (s : Status) (phase : Phase) (message : Option String) (now : Instant) : Status :=
  let starts := s.startTime.isNone || s.phase = .pending
  let (startTime, endTime) := match phase with
    | .starting | .applying | .destroying =>
        if starts then (some now, none) else (s.startTime, s.endTime)
    | .complete | .error => (s.startTime, some now)
    | .pending | .unknown => (s.startTime, s.endTime)
  ⟨phase, message, startTime, endTime, some now⟩

@[simp] theorem moveTo_phase (s : Status) (phase : Phase) (message : Option String) (now : Instant) :
    (s.moveTo phase message now).phase = phase := rfl

@[simp] theorem moveTo_message (s : Status) (phase : Phase) (message : Option String) (now : Instant) :
    (s.moveTo phase message now).message = message := rfl

/-- A time as a document. -/
def timeValue (t : Instant) : Value := .str t.render

/-- Reads a time. -/
def readTime? (v : Value) : Option Instant := v.str?.bind Instant.parse?

/-- A status as a document. -/
def toValue (s : Status) : Value :=
  .obj ([("state", .str s.phase.name)]
    ++ Encode.optional "message" .str s.message
    ++ Encode.optional "startTime" timeValue s.startTime
    ++ Encode.optional "endTime" timeValue s.endTime
    ++ Encode.optional "lastUpdated" timeValue s.lastUpdated)

/-- Reads a status. -/
def ofValue? (v : Value) : Option Status := do
  let t ← Decode.parts ["state", "message", "startTime", "endTime", "lastUpdated"] v
  return {
    phase := ← Decode.needed (Decode.variant Phase.ofName?) t "state"
    message := ← Decode.optional Decode.text t "message"
    startTime := ← Decode.optional readTime? t "startTime"
    endTime := ← Decode.optional readTime? t "endTime"
    lastUpdated := ← Decode.optional readTime? t "lastUpdated" }

end Status

end Groundwork
