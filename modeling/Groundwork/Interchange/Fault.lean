import Groundwork.Failure
import Groundwork.Failure.Kind
import Groundwork.Interchange.Shown
import Groundwork.Text.Search

/-!
# Showing failures to other programs

A failure is shown by its kind and its text.  What the system says is left out of the text, as it differs
from system to system, and so is the text of those failures that only pass on what others say.

Main statement: a failure of a silent kind shows its kind and nothing else (`faultFields_of_silent`).
-/

namespace Groundwork

namespace Shown

/-- The kinds of failures whose texts are not shown. -/
def silentKinds : List String :=
  ["InvalidDefinition", "ParseError", "Corrupted", "LockedByOther", "TaskFailed", "Io"]

/-- A text up to the end of a part, if it holds the part. -/
def cutAfter (part s : String) : Option String :=
  (Text.cut part.toList s.toList).map fun p => String.ofList p.1 ++ part

/-- The part of the text of a failed connection that is shown: up to the address if there is one. -/
def connectionText (s : String) : String :=
  let mark := "Plugin connection failed"
  let far := if Text.contains (mark ++ ": ws://").toList s.toList then cutAfter "/ws" s else none
  (far.or (cutAfter mark s)).getD s

/-- A text without what the system says. -/
def dropSystemText (s : String) : String :=
  let errors : List FileError :=
    [.notFound, .denied, .alreadyExists, .notDirectory, .isDirectory, .tooManyLinks]
  errors.foldl (fun s e => s.replace (": " ++ e.message) "") s

/-- The fields of a failure. -/
def faultFields [Described ε] (e : ε) : List (String × Value) :=
  let kind := Described.kind e
  let last := kind.getLast?.getD ""
  let message := dropSystemText (Described.message e)
  ("error", ".".intercalate kind) ::
    (if silentKinds.contains last then []
     else [("message", if last = "Connection" then connectionText message else message)])

/-- A failure. -/
def fault [Described ε] (e : ε) : Value := .object (faultFields e)

/-- A failure with its advice whether to try again, and further fields. -/
def failure (f : Failure) (more : List (String × Value)) : Value :=
  let advice : List (String × Value) := [("retryable", f.isRetryable), ("retry_secs", f.retryDelay)]
  .object (faultFields f ++ more ++ advice)

/-- A result, or the failure in its place. -/
def inPlace [Described ε] (f : α → Value) : Except ε α → Value
  | .ok a => f a
  | .error e => fault e

instance [Described ε] [Shown α] : Shown (Except ε α) := ⟨inPlace shown⟩

instance [Shown α] : Shown (Except Failure α) where
  shown
    | .ok a => shown a
    | .error e => failure e []

/-- A value that is shown as a field. -/
structure Boxed (α : Type) where
  value : α

instance [Shown α] : Shown (Boxed α) := ⟨fun a => .object [("value", shown a.value)]⟩

/-- A result as a field, or the failure in the place of the object. -/
def valueOr [Described ε] [Shown α] [Shown (Except ε (Boxed α))] (x : Except ε α) : Value :=
  shown (x.map Boxed.mk)

theorem faultFields_of_silent [Described ε] {e : ε}
    (h : silentKinds.contains ((Described.kind e).getLast?.getD "") = true) :
    faultFields e = [("error", .str (".".intercalate (Described.kind e)))] := by
  simp only [faultFields, h, if_true]
  rfl

end Shown

end Groundwork
