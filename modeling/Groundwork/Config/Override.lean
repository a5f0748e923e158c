import Groundwork.Config.Codec
import Groundwork.Decimal.Reading
import Groundwork.Failure
import Groundwork.Log

/-!
# Settings from the environment of the process

Some settings are taken from variables of the process if these are set.  They win over the file.

Main statement: where no variable is set, nothing changes (`applyOverrides_none`).
-/

namespace Groundwork.Config

/-- The variable of a setting. -/
def variableName (setting : String) : String := "INFRAGRAPH_" ++ setting

/-- Puts in the name of an environment; its app graph stays. -/
def setEnvironmentName (name : String) (c : Config) : Config :=
  { c with environment := some { c.environment.getD ⟨name, none⟩ with name } }

/-- The kind of store that a text names, in letters of either case. -/
def readBackend (text : String) : Except ConfigError Backend :=
  let name := text.map Char.toLower
  match Backend.ofName? name with
  | some b => .ok b
  | none => .error (.validation ("unknown state backend '" ++ name ++ "', expected local or s3")
      (some "state.backend"))

/-- The number of nodes that a text spells. -/
def readConcurrency (text : String) : Except ConfigError Nat :=
  match Decimal.natural? numberBound text with
  | some n => .ok n
  | none => .error (.validation ("invalid " ++ variableName "CONCURRENCY" ++ " '" ++ text ++ "'")
      (some "execution.concurrency"))

/-- Takes the settings whose variables are set. -/
def applyOverrides (lookup : String → Option String) (c : Config) : Except ConfigError Config := do
  let setting (k : String) : Option String := lookup (variableName k)
  let name := (setting "DATACENTER").getD c.datacenter.name
  let c := { c with datacenter := { c.datacenter with name } }
  let c := match setting "ENVIRONMENT" with
    | some name => setEnvironmentName name c
    | none => c
  let concurrency ← ((setting "CONCURRENCY").mapM readConcurrency : Except _ _)
  let backend ← ((setting "STATE_BACKEND").mapM readBackend : Except _ _)
  return { c with
    concurrency := concurrency.getD c.concurrency
    state := { c.state with
      backend := backend.getD c.state.backend
      bucket := (setting "STATE_BUCKET").or c.state.bucket
      directory := (setting "STATE_PREFIX").or c.state.directory } }

/-- What the log says of the names that are taken. -/
def overrideJournal (lookup : String → Option String) : List LogLine :=
  let line (k field : String) : Option LogLine :=
    (lookup (variableName k)).map fun _ => ⟨.debug, "Overriding " ++ field ++ " from environment"⟩
  [line "DATACENTER" "datacenter.name", line "ENVIRONMENT" "environment.name"].filterMap id

theorem applyOverrides_none (c : Config) : applyOverrides (fun _ => none) c = .ok c := by
  simp [applyOverrides, bind, Except.bind, pure, Except.pure]

end Groundwork.Config
