import Groundwork.Effect.Program
import Groundwork.Log

/-!
# What programs ask beside their data

The time, names that nobody else has, who is asking, and the log.
-/

namespace Groundwork

/-- Questions that any program may ask. -/
inductive Ambient : Type → Type where
  | clock : Ambient Instant
  /-- A name that is not used anywhere else. -/
  | freshId : Ambient String
  /-- The name of whoever runs the program. -/
  | holder : Ambient String
  | note (line : LogLine) : Ambient Unit

/-- Questions of two kinds. -/
inductive OneOf (P Q : Type → Type) (α : Type) : Type where
  | first (p : P α)
  | second (q : Q α)

/-- The questions `Q` and the ambient ones. -/
abbrev Asking (Q : Type → Type) := OneOf Ambient Q

namespace Program

variable {Q : Type → Type}

/-- Asks a question of the second kind. -/
def call {P : Type → Type} (q : Q α) : Program (OneOf P Q) α := query (.second q)

/-- The time. -/
def clock : Program (Asking Q) Instant := query (.first .clock)

/-- A name that is not used anywhere else. -/
def freshId : Program (Asking Q) String := query (.first .freshId)

/-- The name of whoever runs the program. -/
def holder : Program (Asking Q) String := query (.first .holder)

/-- Writes a line of the log. -/
def note (level : Level) (text : String) : Program (Asking Q) Unit := query (.first (.note ⟨level, text⟩))

end Program

/-- Surroundings in which time stands still and names are counted. -/
structure Ambience where
  now : Instant
  /-- The number of names that were given. -/
  named : Nat
  holder : String
  /-- The log. -/
  lines : List LogLine
  deriving Repr, Inhabited

namespace Ambience

/-- The name of a number: five groups of digits, the last of which counts. -/
def nameOf (n : Nat) : String :=
  "00000000-0000-4000-8000-" ++ String.ofList (Instant.padded 12 n)

/-- Answers a question. -/
def answer {α : Type} (q : Ambient α) : StateM Ambience α :=
  match q with
  | .clock => return (← get).now
  | .freshId => modifyGet fun s => (nameOf s.named, { s with named := s.named + 1 })
  | .holder => return (← get).holder
  | .note line => modify fun s => { s with lines := s.lines ++ [line] }

end Ambience

end Groundwork
