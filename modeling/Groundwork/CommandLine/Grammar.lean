import Groundwork.Report

/-!
# The grammar of the command line

A command line is a chain of verbs, from the program itself down to what is to be done, with flags behind
each of them.  Some flags belong to every verb, the others to one or a few.

Main statements: no two flags of a verb have the same long or short name (`nodup_long`, `nodup_short`), and
the verbs above a verb lead to it (`trail_parts`).
-/

namespace Groundwork.CommandLine

/-- The verbs. -/
inductive Verb where
  /-- The program itself. -/
  | whole
  | validate | values | graph | plan | apply | destroy | build | state
  | stateShow | stateUnlock | stateDelete
  deriving DecidableEq, Repr, Inhabited

/-- The flags. -/
inductive Flag where
  | config | verbose | output | logFormat
  | warnings | var | detailed | yes | concurrency | out | lockId | force
  | help | version
  deriving DecidableEq, Repr, Inhabited

/-- What a flag is followed by. -/
inductive Taking where
  | nothing
  | text
  /-- A text that is not empty. -/
  | path
  | oneOf (names : List String)
  | number
  /-- A name and a value with an equals sign between them. -/
  | setting
  deriving DecidableEq, Repr, Inhabited

namespace Verb

/-- The word of a verb. -/
def word : Verb → String
  | .whole => "infragraph"
  | .validate => "validate"
  | .values => "variables"
  | .graph => "graph"
  | .plan => "plan"
  | .apply => "apply"
  | .destroy => "destroy"
  | .build => "build"
  | .state => "state"
  | .stateShow => "show"
  | .stateUnlock => "unlock"
  | .stateDelete => "delete"

/-- What a verb does. -/
def summary : Verb → String
  | .whole => "Plan and apply datacenter module graphs"
  | .validate => "Validate the configuration and compile the datacenter"
  | .values => "Show the datacenter's variables, resolved where possible"
  | .graph => "Print the compiled infrastructure graph"
  | .plan => "Show what an apply would do"
  | .apply => "Plan and apply"
  | .destroy => "Destroy everything in the stored graph"
  | .build => "Build modules whose source is a local directory"
  | .state => "Manage stored state"
  | .stateShow => "Show the stored graph and history"
  | .stateUnlock => "Remove a lock left behind by an interrupted run"
  | .stateDelete => "Delete the stored graph without destroying anything"

/-- The verbs that may follow a verb; one of them must follow if there are any. -/
def parts : Verb → List Verb
  | .whole => [.validate, .values, .graph, .plan, .apply, .destroy, .build, .state]
  | .state => [.stateShow, .stateUnlock, .stateDelete]
  | _ => []

/-- The flags that only this verb and a few others have. -/
def ownFlags : Verb → List Flag
  | .validate => [.warnings]
  | .values | .graph => [.var]
  | .plan => [.var, .detailed]
  | .apply => [.var, .yes, .concurrency]
  | .destroy => [.yes, .concurrency]
  | .build => [.out]
  | .stateUnlock => [.lockId, .force]
  | .stateDelete => [.yes]
  | .whole | .state | .stateShow => []

/-- All flags of a verb. -/
def flags (v : Verb) : List Flag :=
  v.ownFlags ++ [.config, .verbose, .output, .logFormat, .help, .version]

/-- The verbs from the program down to a verb. -/
def trail : Verb → List Verb
  | .whole => [.whole]
  | .stateShow => [.whole, .state, .stateShow]
  | .stateUnlock => [.whole, .state, .stateUnlock]
  | .stateDelete => [.whole, .state, .stateDelete]
  | v => [.whole, v]

end Verb

namespace Flag

/-- The long name of a flag. -/
def long : Flag → String
  | .config => "config"
  | .verbose => "verbose"
  | .output => "output"
  | .logFormat => "log-format"
  | .warnings => "warnings"
  | .var => "var"
  | .detailed => "detailed"
  | .yes => "yes"
  | .concurrency => "concurrency"
  | .out => "out"
  | .lockId => "lock-id"
  | .force => "force"
  | .help => "help"
  | .version => "version"

/-- The short name of a flag. -/
def short? : Flag → Option Char
  | .config => some 'c'
  | .verbose => some 'v'
  | .warnings => some 'w'
  | .detailed => some 'd'
  | .yes => some 'y'
  | .help => some 'h'
  | .version => some 'V'
  | _ => none

/-- What a flag is for. -/
def summary : Flag → String
  | .config => "Path to the configuration file"
  | .verbose => "Enable verbose output"
  | .output => "Output format"
  | .logFormat => "Log line format"
  | .warnings => "Show warnings as well as errors"
  | .var => "Override a variable (name=value)"
  | .detailed => "List unchanged nodes too"
  | .yes => "Skip confirmation prompt"
  | .concurrency => "Maximum number of modules worked on at once"
  | .out => "Write the definition with built images to this path"
  | .lockId => "Lock ID to release"
  | .force => "Remove the lock whoever holds it"
  | .help => "Print help"
  | .version => "Print version"

/-- What a flag is followed by. -/
def taking : Flag → Taking
  | .config | .out => .path
  | .output | .logFormat => .oneOf ["text", "json"]
  | .var => .setting
  | .concurrency => .number
  | .lockId => .text
  | _ => .nothing

/-- Whether a flag may be given more than once. -/
def mayRepeat : Flag → Bool
  | .var => true
  | _ => false

end Flag

/-- The verb of a word among those that may follow a verb. -/
def Verb.part? (v : Verb) (word : String) : Option Verb := v.parts.find? (·.word = word)

/-- The flag of a long name. -/
def Verb.long? (v : Verb) (name : List Char) : Option Flag := v.flags.find? (·.long.toList = name)

/-- The flag of a short name. -/
def Verb.short? (v : Verb) (name : Char) : Option Flag := v.flags.find? (·.short? = some name)

/-- Every verb may follow the one before it. -/
theorem trail_parts (v : Verb) : ∀ p ∈ v.trail.zip v.trail.tail, p.2 ∈ p.1.parts := by
  cases v <;> decide

theorem nodup_long (v : Verb) : (v.flags.map Flag.long).Nodup := by cases v <;> decide

theorem nodup_short (v : Verb) : (v.flags.filterMap Flag.short?).Nodup := by cases v <;> decide

end Groundwork.CommandLine
