import Groundwork.CommandLine.Reader

/-!
# Invocations

What a command line asks for, with all its settings.  A flag that every verb has may stand behind any of
them; the one furthest down counts.

Main statement: without a flag for the configuration the variable of the process decides
(`configuration_of_none`).
-/

namespace Groundwork

/-- What is to be done. -/
inductive Instruction where
  | validate (warnings : Bool)
  | values (settings : List (String × String))
  | graph (settings : List (String × String))
  | plan (settings : List (String × String)) (detailed : Bool)
  | apply (settings : List (String × String)) (yes : Bool) (concurrency : Option Nat)
  | destroy (yes : Bool) (concurrency : Option Nat)
  | build (out : Option String)
  | showState
  | unlockState (lock : Option String) (force : Bool)
  | deleteState (yes : Bool)
  deriving DecidableEq, Repr, Inhabited

/-- What is to be done, and how. -/
structure Invocation where
  /-- The path of the configuration. -/
  config : Option String
  verbose : Bool
  style : ReportStyle
  logStyle : ReportStyle
  instruction : Instruction
  deriving DecidableEq, Repr, Inhabited

namespace CommandLine

/-- What a flag is given, furthest down. -/
def given? (stages : List Stage) (f : Flag) : Option Given :=
  stages.reverse.findSome? fun s => s.given.lookup f

/-- Whether a flag is given. -/
def isGiven (stages : List Stage) (f : Flag) : Bool := (given? stages f).isSome

/-- The text of a flag. -/
def textOf (stages : List Stage) (f : Flag) : Option String :=
  match given? stages f with
  | some (.text s) => some s
  | _ => none

/-- The number of a flag. -/
def numberOf (stages : List Stage) (f : Flag) : Option Nat :=
  match given? stages f with
  | some (.number n) => some n
  | _ => none

/-- The form that a flag asks for. -/
def styleOf (stages : List Stage) (f : Flag) : ReportStyle :=
  ((textOf stages f).bind ReportStyle.ofName?).getD .text

/-- All settings of variables. -/
def settings (stages : List Stage) : List (String × String) :=
  (stages.flatMap (·.given)).filterMap fun p =>
    match p.2 with
    | .setting name value => some (name, value)
    | _ => none

/-- The instruction of a verb with the flags of all stages. -/
def instruction (stages : List Stage) : Verb → Instruction
  | .values => .values (settings stages)
  | .graph => .graph (settings stages)
  | .plan => .plan (settings stages) (isGiven stages .detailed)
  | .apply => .apply (settings stages) (isGiven stages .yes) (numberOf stages .concurrency)
  | .destroy => .destroy (isGiven stages .yes) (numberOf stages .concurrency)
  | .build => .build (textOf stages .out)
  | .stateShow => .showState
  | .stateUnlock => .unlockState (textOf stages .lockId) (isGiven stages .force)
  | .stateDelete => .deleteState (isGiven stages .yes)
  | .validate | .whole | .state => .validate (isGiven stages .warnings)

/-- The variable of the process that names the configuration. -/
def configVariable : String := "INFRAGRAPH_CONFIG"

/-- The path of the configuration: from a flag, or from a variable of the process, which must not be empty. -/
def configuration (fromProcess : Option String) (stages : List Stage) : Except UsageError (Option String) :=
  match textOf stages .config, fromProcess with
  | some path, _ => .ok (some path)
  | none, some path => if path.isEmpty then .error (.invalidValue .config) else .ok (some path)
  | none, none => .ok none

/-- The invocation that words ask for. -/
def parse (fromProcess : Option String) (words : List String) : Except UsageError Invocation := do
  let stages ← read (.start .whole) words
  let config ← configuration fromProcess stages
  return {
    config
    verbose := isGiven stages .verbose
    style := styleOf stages .output
    logStyle := styleOf stages .logFormat
    instruction := instruction stages ((stages.getLast?.map (·.verb)).getD .whole) }

theorem configuration_of_none {stages : List Stage} (h : textOf stages .config = none) {path : String}
    (hp : path ≠ "") : configuration (some path) stages = .ok (some path) := by
  simp [configuration, h, hp]

/-! ### What is shown instead -/

/-- The version of the program. -/
def version : String := "0.1.0"

/-- The line that tells the version, under the verbs down to a verb. -/
def versionLine (v : Verb) : String := "-".intercalate (v.trail.map Verb.word) ++ " " ++ version ++ "\n"

/-- Names and what they stand for, one in a line. -/
def describe (heading : String) (items : List (String × String)) : String :=
  if items.isEmpty then ""
  else
    let columns := (items.map (·.1.length)).foldl max 0
    let line (p : String × String) : String :=
      "  " ++ String.ofList (Text.fill columns p.1.toList) ++ "  " ++ p.2 ++ "\n"
    "\n" ++ heading ++ ":\n" ++ String.join (items.map line)

/-- The names of a flag. -/
def flagNames (f : Flag) : String :=
  (f.short?.elim "    " fun c => String.ofList ['-', c, ',', ' ']) ++ "--" ++ f.long

/-- The help of a verb. -/
def helpText (v : Verb) : String :=
  v.summary ++ "\n\nUsage: " ++ " ".intercalate (v.trail.map Verb.word)
    ++ (if v.parts.isEmpty then " [OPTIONS]\n" else " [OPTIONS] <COMMAND>\n")
    ++ describe "Commands" (v.parts.map fun p => (p.word, p.summary))
    ++ describe "Options" (v.flags.map fun f => (flagNames f, f.summary))

/-- The text of an error. -/
def UsageError.message : UsageError → String
  | .help v | .empty v => helpText v
  | .version v => versionLine v
  | .missingVerb v => "error: '" ++ v.word ++ "' requires a subcommand\n"
  | .unknownVerb w => "error: unrecognized subcommand '" ++ w ++ "'\n"
  | .unknownFlag w => "error: unexpected argument '" ++ w ++ "'\n"
  | .invalidValue f => "error: invalid or missing value for '--" ++ f.long ++ "'\n"
  | .unreadableValue f text => "error: invalid value '" ++ text ++ "' for '--" ++ f.long ++ "'\n"
  | .conflict f => "error: '--" ++ f.long ++ "' cannot be used multiple times\n"
  | .surplusValue f => "error: unexpected value for '--" ++ f.long ++ "'\n"

/-- Whether an error only asks to be told something. -/
def UsageError.isInquiry : UsageError → Bool
  | .help _ | .version _ => true
  | _ => false

/-- The kind of an error. -/
def UsageError.kind : UsageError → String
  | .help _ => "DisplayHelp"
  | .version _ => "DisplayVersion"
  | .empty _ => "DisplayHelpOnMissingArgumentOrSubcommand"
  | .missingVerb _ => "MissingSubcommand"
  | .unknownVerb _ => "InvalidSubcommand"
  | .unknownFlag _ => "UnknownArgument"
  | .invalidValue _ => "InvalidValue"
  | .unreadableValue _ _ => "ValueValidation"
  | .conflict _ => "ArgumentConflict"
  | .surplusValue _ => "TooManyValues"

end CommandLine

end Groundwork
