import Groundwork.Failure
import Groundwork.Plugin.Wire

/-!
# Replies of plugins

A plugin answers a command with a row of frames.  Most of them carry lines for the log; the first that
carries an error or a result decides, and so does the first that cannot be read or that ends the connection.

Main statements: frames that say nothing may be left out (`verdict_cons_of_isSilent`), and an empty row is
the same as one that closes at once (`verdict_close`).
-/

namespace Groundwork

/-- A frame that comes over the connection. -/
inductive Frame where
  | text (s : String)
  | binary (bytes : List UInt8)
  /-- A frame that only keeps the connection going. -/
  | control
  | close
  /-- The connection broke. -/
  | broken (message : String)
  deriving DecidableEq, Repr, Inhabited

/-- What a frame means for the command. -/
inductive Notice where
  /-- Nothing that decides. -/
  | silent
  /-- The plugin failed. -/
  | failed (e : PluginError)
  /-- The plugin has finished. -/
  | result (v : Value)
  /-- There will be nothing more. -/
  | ended
  deriving DecidableEq, Repr, Inhabited

namespace Reply

/-- The text of an error: a text stands for itself. -/
def errorText : Value → String
  | .str s => s
  | v => Json.compact v

/-- What a message means: a line for the log comes before an error, and an error before a result. -/
def noticeOfMessage (m : Message) : Notice :=
  match m.verboseOutput, m.error, m.result with
  | some _, _, _ => .silent
  | none, some e, _ => .failed (.remote (errorText e))
  | none, none, some v => .result v
  | none, none, none => .silent

/-- What a text means. -/
def noticeOfText (s : String) : Notice :=
  match Message.ofText? s with
  | some m => noticeOfMessage m
  | none => .failed (.protocol "invalid frame")

/-- What a frame means; bytes count as the text that they encode. -/
def notice : Frame → Notice
  | .text s => noticeOfText s
  | .binary bytes =>
      match String.fromUTF8? ⟨bytes.toArray⟩ with
      | some s => noticeOfText s
      | none => .failed (.protocol "non UTF-8 frame")
  | .control => .silent
  | .close => .ended
  | .broken message => .failed (.connection message)

/-- The failure of a connection that ends too early. -/
def endedEarly (command : String) : PluginError :=
  .protocol ("connection closed before " ++ command ++ " returned a result")

/-- The result that a row of frames decides on. -/
def verdict (command : String) : List Frame → Except PluginError Value
  | [] => .error (endedEarly command)
  | frame :: rest =>
      match notice frame with
      | .silent => verdict command rest
      | .failed e => .error e
      | .result v => .ok v
      | .ended => .error (endedEarly command)

/-- The result of a command, in its own form. -/
def read (decode : Value → Option α) (command : String) (frames : List Frame) : Except PluginError α :=
  match verdict command frames with
  | .error e => .error e
  | .ok v =>
      match decode v with
      | some a => .ok a
      | none => .error (.protocol ("invalid " ++ command ++ " result"))

theorem verdict_cons_of_isSilent {command : String} {frame : Frame} (rest : List Frame)
    (h : notice frame = .silent) : verdict command (frame :: rest) = verdict command rest := by
  simp [verdict, h]

theorem verdict_append_of_isSilent {command : String} {frame : Frame} (front rest : List Frame)
    (h : notice frame = .silent) :
    verdict command (front ++ frame :: rest) = verdict command (front ++ rest) := by
  induction front with
  | nil => exact verdict_cons_of_isSilent rest h
  | cons f front ih => simp only [List.cons_append, verdict, ih]

theorem verdict_close (command : String) (rest : List Frame) :
    verdict command (.close :: rest) = verdict command [] := rfl

end Reply

end Groundwork
