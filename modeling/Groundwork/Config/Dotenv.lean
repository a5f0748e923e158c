import Groundwork.Data.Table
import Groundwork.Text.Alphanumeric
import Groundwork.Text.Blank
import Groundwork.Text.Search

/-!
# Files of variables

A file of variables has a variable on each line: its name, an equals sign and its value, maybe with the word
`export` in front.  Values may be quoted, also over several lines; variables are put in for a dollar sign and
a name, except between single quotes; a number sign after a blank starts a comment.

Variables that are set already stay as they are.

Main statement: a variable that is set keeps its value (`lookup_define_of_lookup`).
-/

namespace Groundwork.Dotenv

/-! ### Lines -/

/-- Where in a line the reader stands. -/
inductive Place where
  | plain | blank | escape
  /-- Between quotes of this kind, maybe behind a backslash. -/
  | quoted (quote : Char) (escape : Bool)
  /-- In a comment. -/
  | comment
  deriving DecidableEq, Repr, Inhabited

/-- The place after a character outside of quotes. -/
def Place.afterPlain (c : Char) : Place :=
  if c = '\\' then .escape
  else if c = '"' || c = '\'' then .quoted c false
  else .plain

/-- The place after one more character. -/
def Place.next (p : Place) (c : Char) : Place :=
  match p with
  | .blank => if c = '#' then .comment else .afterPlain c
  | .escape => .plain
  | .plain => if Text.isBlank c && c ≠ '\n' && c ≠ '\r' then .blank else .afterPlain c
  | .quoted q true => .quoted q false
  | .quoted q false => if c = '\\' then .quoted q true else if c = q then .plain else .quoted q false
  | .comment => .comment

/-- The rest of a line from a place on: what is read of it, without a comment, and the place at its end. -/
def scanLine (p : Place) : List Char → List Char × Place
  | [] => ([], p)
  | c :: cs =>
      match p.next c with
      | .comment => ([], .comment)
      | next =>
          let (read, last) := scanLine next cs
          (c :: read, last)

/-- Splits off the first line, with the line break at its end. -/
def takeLine (cs : List Char) : List Char × List Char :=
  (cs.takeWhile (· ≠ '\n') ++ (cs.dropWhile (· ≠ '\n')).take 1, (cs.dropWhile (· ≠ '\n')).drop 1)

theorem takeLine_append (cs : List Char) : (takeLine cs).1 ++ (takeLine cs).2 = cs := by
  rw [takeLine, List.append_assoc, List.take_append_drop, List.takeWhile_append_dropWhile]

/-- A line without the break at its end. -/
def dropBreak (line : List Char) : List Char :=
  match Text.dropFinish ['\n'] line with
  | some l => (Text.dropFinish ['\r'] l).getD l
  | none => line

/-- The logical lines of a text: quotes may run over line breaks.  `read` is the part of a logical line that
has been read already, and `place` where it stands.  A text that ends within quotes, behind a backslash or
behind a blank has no last line; that is told by `none` at the end. -/
def linesFrom (fuel : Nat) (read : List Char) (place : Place) (cs : List Char) : List (Option (List Char)) :=
  match fuel, cs with
  | 0, _ => []
  | _ + 1, [] => if place = .plain then [] else [none]
  | fuel + 1, cs =>
      let (line, rest) := takeLine cs
      if (Text.trimStart (read ++ line)).head? = some '#' then some [] :: linesFrom fuel [] .plain rest
      else
        let (part, last) := scanLine place line
        match last with
        | .plain => some (dropBreak (read ++ part)) :: linesFrom fuel [] .plain rest
        | .comment => some (read ++ part) :: linesFrom fuel [] .plain rest
        | last => linesFrom fuel (read ++ part) last rest

/-- The logical lines of a text. -/
def lines (text : List Char) : List (Option (List Char)) := linesFrom (text.length + 1) [] .plain text

/-! ### Values -/

/-- How a name that is to be replaced is written. -/
inductive Naming where
  | none
  /-- A dollar sign, then letters and numbers. -/
  | bare
  /-- In braces. -/
  | braced
  deriving DecidableEq, Repr, Inhabited

/-- How far a value has been read. -/
structure Reading where
  output : List Char
  /-- The quotes that are open. -/
  quote : Option Char
  escaped : Bool
  naming : Naming
  /-- The name that is to be replaced, as far as it has been read. -/
  name : List Char
  /-- Whether only a comment may follow. -/
  ended : Bool
  /-- Whether a comment has begun. -/
  comment : Bool
  deriving DecidableEq, Repr, Inhabited

namespace Reading

/-- Nothing read. -/
def start : Reading := ⟨[], none, false, .none, [], false, false⟩

/-- Writes a character. -/
def put (r : Reading) (c : Char) : Reading := { r with output := r.output ++ [c] }

/-- Replaces the name that was read. -/
def replace (values : String → String) (r : Reading) : Reading :=
  { r with output := r.output ++ (values (String.ofList r.name)).toList, name := [], naming := .none }

/-- The character that a backslash and another one stand for. -/
def escapedChar? (c : Char) : Option Char :=
  if c = 'n' then some '\n' else if ['\\', '\'', '"', '$', ' '].contains c then some c else none

/-- Reads a character of a name, or the one behind it. -/
def stepName (values : String → String) (r : Reading) (c : Char) : Reading :=
  if Text.isAlphanumeric c then { r with name := r.name ++ [c] }
  else if r.naming = .braced then
    if c = '\x7d' then r.replace values else { r with name := r.name ++ [c] }
  else if c = '\x7b' && r.name.isEmpty then { r with naming := .braced }
  else
    let r := r.replace values
    if c = '$' then { r with naming := .bare } else r.put c

/-- Reads a character outside of names. -/
def stepPlain (r : Reading) (c : Char) : Reading :=
  if c = '$' then { r with naming := .bare }
  else if c = '\\' then { r with escaped := true }
  else if r.quote = some '"' then (if c = '"' then { r with quote := none } else r.put c)
  else if c = '\'' || c = '"' then { r with quote := some c }
  else if c = ' ' || c = '\t' then { r with ended := true }
  else r.put c

/-- Reads one character. -/
def step (values : String → String) (r : Reading) (c : Char) : Option Reading :=
  if r.comment then some r
  else if r.ended then
    if c = ' ' || c = '\t' then some r else if c = '#' then some { r with comment := true } else none
  else if r.escaped then (escapedChar? c).map fun e => { r.put e with escaped := false }
  else if r.quote = some '\'' then
    some (if c = '\'' then { r with quote := none } else r.put c)
  else if r.naming = .none then some (r.stepPlain c)
  else some (r.stepName values c)

end Reading

/-- The value that a text spells. -/
def readValue (values : String → String) (cs : List Char) : Option String := do
  let r ← cs.foldlM (Reading.step values) Reading.start
  if r.naming = .braced || r.quote.isSome then none
  else some (String.ofList (r.replace values).output)

/-! ### Files -/

/-- A name, and what follows it and blanks. -/
def takeName (cs : List Char) : Option (String × List Char) :=
  let isNameChar (c : Char) : Bool := c.isAlphanum || c = '_' || c = '.'
  match cs with
  | [] => none
  | c :: _ =>
      if c.isAlpha || c = '_' then
        some (String.ofList (cs.takeWhile isNameChar), Text.trimStart (cs.dropWhile isNameChar))
      else none

/-- What follows an equals sign and blanks. -/
def takeEquals : List Char → Option (List Char)
  | '=' :: cs => some (Text.trimStart cs)
  | _ => none

/-- The name that a line gives a value to, and the text of the value. -/
def splitLine (cs : List Char) : Option (String × List Char) := do
  let (name, rest) ← takeName cs
  match name, takeEquals rest with
  | _, some value => some (name, value)
  | "export", none => do
      let (name, rest) ← takeName rest
      return (name, ← takeEquals rest)
  | _, none => none

/-- The variables of the process, and those of the file so far. -/
structure Variables where
  process : Table String
  file : Table String
  deriving Repr, Inhabited

namespace Variables

/-- The value that is put in for a name; an unknown name stands for nothing. -/
def value (v : Variables) (name : String) : String :=
  ((v.process.lookup name).or (v.file.lookup name)).getD ""

/-- Defines a variable. -/
def define (v : Variables) (name value : String) : Variables :=
  { process := if v.process.has name then v.process else v.process.put name value
    file := v.file.put name value }

theorem lookup_define_of_lookup {v : Variables} {name : String} {a : String}
    (h : v.process.lookup name = some a) (b : String) :
    (v.define name b).process.lookup name = some a := by
  simp [define, Table.has, h]

end Variables

/-- Reads one line. -/
def readLine (v : Variables) (line : List Char) : Option Variables :=
  match Text.trim line with
  | [] => some v
  | '#' :: _ => some v
  | cs => do
      let (name, rest) ← splitLine cs
      match rest with
      | [] => some (v.define name "")
      | '#' :: _ => some (v.define name "")
      | rest => return v.define name (← readValue v.value rest)

/-- The variables of the process after a file has been read; `none` if it cannot be read. -/
def load (process : Table String) (text : String) : Option (Table String) :=
  let cs := match text.toList with
    | '\ufeff' :: cs => cs
    | cs => cs
  let readAll := (lines cs).foldlM fun (v : Variables) (line : Option (List Char)) => line.bind (readLine v)
  (readAll ⟨process, []⟩).map (·.process)

end Groundwork.Dotenv
