import Groundwork.Failure
import Groundwork.File.Call

/-!
# Terminals

What a program asks of the people who run it: to read what it prints, on one of two streams, and to answer
with a line.

Main statements: splitting a line off loses nothing (`splitLine_append`), and a program that only uses files
leaves its terminal alone (`quiet_ofFiles`).
-/

namespace Groundwork

/-- Calls to a terminal. -/
inductive TerminalCall : Type → Type where
  | print (text : String) : TerminalCall Unit
  /-- Prints on the stream for faults and questions. -/
  | complain (text : String) : TerminalCall Unit
  /-- A line that is typed, with its end; an empty text if nothing more can come. -/
  | readLine : TerminalCall String

/-- Programs that use a terminal and files. -/
abbrev TerminalProgram := Program (Asking (OneOf TerminalCall FileCall))

/-- Programs that use a terminal and files, and may fail. -/
abbrev TerminalTask := ExceptT Failure TerminalProgram

namespace Terminal

/-- A program that only uses files. -/
def ofFiles (p : FileProgram α) : TerminalProgram α :=
  p.mapQuestions fun q =>
    match q with
    | .first q => .first q
    | .second q => .second (.second q)

/-- Prints a text. -/
def print (text : String) : TerminalProgram Unit := Program.call (.first (.print text))

/-- Prints a text on the stream for faults and questions. -/
def complain (text : String) : TerminalProgram Unit := Program.call (.first (.complain text))

/-- A line that is typed. -/
def readLine : TerminalProgram String := Program.call (.first .readLine)

/-- Asks the file system. -/
def ask (q : FileCall α) : TerminalProgram α := Program.call (.second q)

/-- Writes lines of the log. -/
def notes (lines : List LogLine) : TerminalProgram Unit :=
  lines.forM fun l => Program.note l.level l.text

end Terminal

/-- A terminal with what was printed and what will be typed, and its surroundings. -/
structure TerminalWorld where
  files : FileWorld
  /-- What will be typed. -/
  input : List Char
  output : String
  /-- What was printed on the stream for faults and questions. -/
  faults : String
  deriving Inhabited

namespace TerminalWorld

/-- Splits a text behind its first line end. -/
def splitLine (s : List Char) : List Char × List Char :=
  let line := s.takeWhile (· ≠ '\n')
  let rest := s.drop line.length
  (line ++ rest.take 1, rest.drop 1)

/-- Answers a call. -/
def answer {α : Type} (q : TerminalCall α) : StateM TerminalWorld α :=
  match q with
  | .print text => modify fun w => { w with output := w.output ++ text }
  | .complain text => modify fun w => { w with faults := w.faults ++ text }
  | .readLine => modifyGet fun w =>
      let (line, input) := splitLine w.input
      (String.ofList line, { w with input })

/-- Runs a program. -/
def run (p : TerminalProgram α) : StateM TerminalWorld α :=
  p.run fun q =>
    match q with
    | .first q => modifyGet fun w =>
        let (a, ambience) := (Ambience.answer q).run w.files.ambience
        (a, { w with files := { w.files with ambience } })
    | .second (.first q) => answer q
    | .second (.second q) => modifyGet fun w =>
        let (a, files) := (FileWorld.answer q).run w.files
        (a, { w with files })

theorem splitLine_append (s : List Char) : (splitLine s).1 ++ (splitLine s).2 = s := by
  obtain ⟨line, hl⟩ : ∃ line, s.takeWhile (· ≠ '\n') = line := ⟨_, rfl⟩
  have h : line ++ s.dropWhile (· ≠ '\n') = s := by rw [← hl]; exact List.takeWhile_append_dropWhile
  have hd : s.drop line.length = s.dropWhile (· ≠ '\n') := by
    conv => lhs; rw [← h]
    exact List.drop_left
  simp only [splitLine, hl, hd, List.append_assoc, List.take_append_drop]
  exact h

theorem quiet_ofFiles (p : FileProgram α) (w : TerminalWorld) :
    let after := ((run (Terminal.ofFiles p)).run w).2
    after.output = w.output ∧ after.faults = w.faults ∧ after.input = w.input := by
  induction p generalizing w with
  | done a => exact ⟨rfl, rfl, rfl⟩
  | ask q next ih =>
    cases q with
    | first q =>
      exact ih ((Ambience.answer q).run w.files.ambience).1
        { w with files := { w.files with ambience := ((Ambience.answer q).run w.files.ambience).2 } }
    | second q =>
      exact ih ((FileWorld.answer q).run w.files).1
        { w with files := ((FileWorld.answer q).run w.files).2 }

end TerminalWorld

end Groundwork
