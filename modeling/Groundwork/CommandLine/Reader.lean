import Groundwork.CommandLine.Grammar
import Groundwork.Decimal.Reading

/-!
# Reading command lines

The words of a command line are taken one by one.  A value of a flag stands in the same word or in the next
one; a value in the next word is taken in only when another flag follows or the verb is done, so that of
several faults the one found first need not be the first in the line.

Main statements: behind two hyphens nothing can follow (`read_escaped`), and a flag that takes nothing
cannot be given twice (`setFlag_twice`).
-/

namespace Groundwork.CommandLine

/-- Why there is nothing to be done. -/
inductive UsageError where
  /-- Help was asked for. -/
  | help (verb : Verb)
  /-- The version was asked for, under these verbs. -/
  | version (verb : Verb)
  /-- There is neither a verb nor a flag. -/
  | empty (verb : Verb)
  | missingVerb (verb : Verb)
  | unknownVerb (word : String)
  | unknownFlag (word : String)
  /-- A value is missing, or is not one of those that are allowed. -/
  | invalidValue (flag : Flag)
  /-- A value cannot be read. -/
  | unreadableValue (flag : Flag) (value : String)
  /-- A flag is given twice. -/
  | conflict (flag : Flag)
  /-- A flag that takes nothing has a value. -/
  | surplusValue (flag : Flag)
  deriving DecidableEq, Repr, Inhabited

/-- A flag with what it is given. -/
inductive Given where
  | present
  | text (s : String)
  | number (n : Nat)
  | setting (name value : String)
  deriving DecidableEq, Repr, Inhabited

/-- The forms of words. -/
inductive Word where
  /-- Two hyphens. -/
  | escape
  | long (name : List Char) (value : Option String)
  /-- A hyphen and short names. -/
  | short (names : List Char)
  | plain
  deriving DecidableEq, Repr, Inhabited

/-- The form of a word. -/
def Word.ofText (s : String) : Word :=
  match s.toList with
  | ['-', '-'] => .escape
  | '-' :: '-' :: rest =>
      match Text.cut ['='] rest with
      | some (name, value) => .long name (some (String.ofList value))
      | none => .long rest none
  | '-' :: c :: rest => .short (c :: rest)
  | _ => .plain

/-- How far the reading of a verb and its flags has come. -/
structure Stage where
  verb : Verb
  given : List (Flag × Given)
  /-- A flag whose value is not taken in, and the value if it has come. -/
  pending : Option (Flag × Option String)
  /-- Whether two hyphens were met. -/
  escaped : Bool
  deriving DecidableEq, Repr, Inhabited

namespace Stage

/-- A verb without flags. -/
def start (v : Verb) : Stage := ⟨v, [], none, false⟩

/-- Whether a flag is given. -/
def has (s : Stage) (f : Flag) : Bool := (s.given.lookup f).isSome

/-- Whether the next word is a value unless it looks like a flag. -/
def awaits (s : Stage) : Bool :=
  match s.pending with
  | some (_, none) => true
  | _ => false

/-- Reads a name and a value; blanks around the name do not count. -/
def readSetting (f : Flag) (text : String) : Except UsageError Given :=
  match Text.cut ['='] text.toList with
  | none => .error (.unreadableValue f text)
  | some (name, value) =>
      let name := Text.trim name
      if name.isEmpty then .error (.unreadableValue f text)
      else .ok (.setting (String.ofList name) (String.ofList value))

/-- Reads the value of a flag. -/
def readValue (f : Flag) (text : String) : Except UsageError Given :=
  match f.taking with
  | .nothing => .error (.surplusValue f)
  | .text => .ok (.text text)
  | .path => if text.isEmpty then .error (.invalidValue f) else .ok (.text text)
  | .oneOf names => if names.contains text then .ok (.text text) else .error (.invalidValue f)
  | .number =>
      match Decimal.natural? UInt64.size text with
      | some n => .ok (.number n)
      | none => .error (.unreadableValue f text)
  | .setting => readSetting f text

/-- Takes in a flag with its value. -/
def setValue (s : Stage) (f : Flag) (text : String) : Except UsageError Stage :=
  if s.has f && !f.mayRepeat then .error (.conflict f)
  else (readValue f text).map fun value => { s with given := s.given ++ [(f, value)] }

/-- Takes in the flag that is pending. -/
def settle (s : Stage) : Except UsageError Stage :=
  match s.pending with
  | none => .ok s
  | some (f, none) => .error (.invalidValue f)
  | some (f, some text) => { s with pending := none }.setValue f text

/-- Takes in a flag that takes nothing. -/
def setFlag (s : Stage) (f : Flag) : Except UsageError Stage :=
  s.settle.bind fun s =>
    if f = .help then .error (.help s.verb)
    else if f = .version then .error (.version s.verb)
    else if s.has f then .error (.conflict f)
    else .ok { s with given := s.given ++ [(f, .present)] }

/-- Takes in a flag with a value in the same word, or waits for the value. -/
def openFlag (s : Stage) (f : Flag) (attached : Option String) : Except UsageError Stage :=
  s.settle.bind fun s =>
    match attached with
    | some text => s.setValue f text
    | none => .ok { s with pending := some (f, none) }

/-- Takes in a flag by its long name. -/
def long (s : Stage) (word : String) (name : List Char) (value : Option String) :
    Except UsageError Stage :=
  match s.verb.long? name with
  | none => .error (.unknownFlag word)
  | some f =>
      if f.taking ≠ .nothing then s.openFlag f value
      else if value.isSome then .error (.surplusValue f)
      else s.setFlag f

/-- Takes in flags by their short names.  The first that takes a value takes all that follows it, less an
equals sign in front. -/
def short (s : Stage) (word : String) : List Char → Except UsageError Stage
  | [] => .ok s
  | c :: rest =>
      match s.verb.short? c with
      | none => .error (.unknownFlag word)
      | some f =>
          if f.taking ≠ .nothing then
            let value := (Text.dropStart ['='] rest).getD rest
            s.openFlag f (if rest.isEmpty then none else some (String.ofList value))
          else (s.setFlag f).bind fun s => s.short word rest

/-- The fault of a word that is neither a verb nor a flag nor a value. -/
def unexpected (s : Stage) (word : String) : UsageError :=
  let isVerb := word = "help" || (s.verb.part? word).isSome
  if s.verb.parts.isEmpty || (s.escaped && isVerb) then .unknownFlag word else .unknownVerb word

/-- The end of a verb, given what was read below it. -/
def finish (s : Stage) (below : List Stage) : Except UsageError (List Stage) :=
  s.settle.bind fun s =>
    if below.isEmpty && !s.verb.parts.isEmpty then
      .error (if s.given.isEmpty then .empty s.verb else .missingVerb s.verb)
    else .ok (s :: below)

end Stage

/-- What is shown to those who ask for help with the words that follow a verb. -/
def helpWith (v : Verb) : List String → UsageError
  | [] => .help v
  | word :: rest =>
      match v.part? word with
      | some w => helpWith w rest
      | none =>
          if word = "help" && !v.parts.isEmpty then
            match rest with
            | [] => .help v
            | word :: _ => .unknownVerb word
          else .unknownVerb word

/-- Reads words into the stage of a verb: this stage and those of the verbs below it. -/
def read (s : Stage) : List String → Except UsageError (List Stage)
  | [] => s.finish []
  | word :: rest =>
      if s.escaped then .error (s.unexpected word)
      else if !s.awaits && word = "help" && !s.verb.parts.isEmpty then .error (helpWith s.verb rest)
      else
        match if s.awaits then none else s.verb.part? word with
        | some v => (read (.start v) rest).bind s.finish
        | none =>
            match Word.ofText word with
            | .escape => read { s with escaped := true } rest
            | .long name value => (s.long word name value).bind fun s => read s rest
            | .short names => (s.short word names).bind fun s => read s rest
            | .plain =>
                match s.pending with
                | some (f, none) => read { s with pending := some (f, some word) } rest
                | _ => .error (s.unexpected word)

theorem read_escaped {s : Stage} (h : s.escaped = true) (word : String) (rest : List String) :
    read s (word :: rest) = .error (s.unexpected word) := by
  simp [read, h]

theorem setFlag_twice {s : Stage} {f : Flag} (hs : s.pending = none) (hh : f ≠ .help) (hv : f ≠ .version)
    (h : s.has f = true) : s.setFlag f = .error (.conflict f) := by
  simp [Stage.setFlag, Stage.settle, hs, Except.bind, hh, hv, h]

end Groundwork.CommandLine
