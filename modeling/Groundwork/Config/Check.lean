import Groundwork.Config.Basic
import Groundwork.Failure
import Groundwork.File.Call

/-!
# Checking configurations

A check finds issues, each with the field that is at fault, and warnings.  One issue is enough to refuse a
configuration; the first of them is reported.

Main statements: a configuration is refused exactly if there is an issue (`refuse_eq_ok_iff`), and no name is
empty (`isName_ne_empty`).
-/

namespace Groundwork

/-- Something that makes a configuration unusable. -/
structure Issue where
  /-- The path of the field, with dots. -/
  field : String
  message : String
  deriving DecidableEq, Repr, Inhabited

/-- The text of an issue. -/
def Issue.render (i : Issue) : String := i.field ++ ": " ++ i.message

/-- What a check has found. -/
structure Findings where
  issues : List Issue
  warnings : List String
  deriving DecidableEq, Repr, Inhabited

namespace Findings

/-- One finding after the other. -/
def append (a b : Findings) : Findings := ⟨a.issues ++ b.issues, a.warnings ++ b.warnings⟩

/-- Whether a configuration may be used. -/
def isValid (f : Findings) : Bool := f.issues.isEmpty

/-- The findings if there is no issue; else the first issue. -/
def refuse (f : Findings) : Except ConfigError Findings :=
  match f.issues with
  | [] => .ok f
  | i :: _ => .error (.validation i.message (some i.field))

theorem refuse_eq_ok_iff {f g : Findings} : f.refuse = .ok g ↔ f.issues = [] ∧ g = f := by
  unfold refuse
  split
  · rename_i h
    simp [h, eq_comm]
  · rename_i h
    simp [h]

end Findings

namespace Config

/-- The issues of a list of tests: those whose test holds. -/
def issuesOf (tests : List (Bool × Issue)) : List Issue := (tests.filter (·.1)).map (·.2)

/-- The warnings of a list of tests: those whose test holds. -/
def warningsOf (tests : List (Bool × String)) : List String := (tests.filter (·.1)).map (·.2)

/-- The issues of single fields. -/
def fieldIssues (c : Config) : List Issue := issuesOf
  [(c.datacenter.name.isEmpty, ⟨"datacenter.name", "datacenter name cannot be empty"⟩),
   (c.environmentName = some "", ⟨"environment.name", "environment name cannot be empty"⟩),
   (c.concurrency = 0, ⟨"execution.concurrency", "concurrency must be at least 1"⟩)]

/-- Whether a character may stand in a name. -/
def isNameChar (c : Char) : Bool := c.isLower || c.isDigit || c = '-'

/-- Whether a text is a name: a small letter, then small letters, digits and single hyphens, none of which
is the last. -/
def isName (s : String) : Bool :=
  match s.toList with
  | [] => false
  | c :: cs =>
      c.isLower && cs.all isNameChar && (c :: cs).getLast? ≠ some '-'
        && !Text.contains ['-', '-'] (c :: cs)

/-- The message of a name that is none. -/
def nameMessage (what name : String) : String :=
  what ++ " name '" ++ name ++ "' is invalid. Must be lowercase alphanumeric with hyphens."

/-- The issue of a name. -/
def nameIssue (field what name : String) : Bool × Issue :=
  (!name.isEmpty && !isName name, ⟨field, nameMessage what name⟩)

/-- The issues of names. -/
def nameIssues (c : Config) : List Issue :=
  issuesOf (nameIssue "datacenter.name" "Datacenter" c.datacenter.name
    :: (c.environmentName.map (nameIssue "environment.name" "Environment")).toList)

/-- The names that differ from an earlier one only by the case of letters. -/
def likeEarlier (seen : List String) : List String → List String
  | [] => []
  | name :: rest =>
      let plain := name.map Char.toLower
      if seen.contains plain then name :: likeEarlier seen rest else likeEarlier (plain :: seen) rest

/-- The warnings about names. -/
def nameWarnings (c : Config) : List String :=
  (likeEarlier [] c.datacenter.values.keys).map fun name =>
    "Variable '" ++ name ++ "' differs from another only by case"

/-- What is to be said of the store. -/
def stateFindings (c : Config) : Findings :=
  match c.state.backend with
  | .bucket =>
      { issues := issuesOf [((c.state.bucket.getD "").isEmpty,
          ⟨"state.bucket", "S3 bucket name is required when using S3 backend"⟩)]
        warnings := warningsOf [(c.state.path.isSome, "state.path is ignored by the S3 backend")] }
  | .files =>
      { issues := []
        warnings := warningsOf
          [(c.state.bucket.isSome, "state.bucket is ignored by the local backend")] }

/-- What can be found without looking at files. -/
def findings (c : Config) : Findings :=
  (Findings.mk (fieldIssues c ++ nameIssues c) (nameWarnings c)).append (stateFindings c)

/-- What is to be said of the app graph. -/
def graphFindings (e : EnvironmentSettings) : FileProgram Findings := do
  match e.graph with
  | none => return ⟨[], ["Environment '" ++ e.name
      ++ "' has no app graph; only environment modules will be planned"]⟩
  | some path =>
      let found ← Program.call (.isFile path)
      return ⟨issuesOf [(!found, ⟨"environment.graph", "App graph not found: " ++ path⟩)], []⟩

/-- What is to be said of files that are named. -/
def fileFindings (c : Config) : FileProgram Findings := do
  let found ← Program.call (.isFile c.datacenter.path)
  let definition := issuesOf
    [(!found, ⟨"datacenter.path", "Datacenter definition not found: " ++ c.datacenter.path⟩)]
  let graph ← match c.environment with
    | some e => graphFindings e
    | none => pure ⟨[], []⟩
  let mount ← match c.plugins.mount with
    | some path => do
        let found ← Program.call (.isDirectory path)
        pure (issuesOf [(!found, ⟨"plugins.mount", "Plugin mount directory not found: " ++ path⟩)])
    | none => pure []
  return ((Findings.mk definition []).append graph).append ⟨mount, []⟩

/-- Checks a configuration, with or without the files that it names. -/
def check (withFiles : Bool) (c : Config) : FileProgram (Except ConfigError Findings) := do
  let files ← if withFiles then fileFindings c else pure ⟨[], []⟩
  let result := (c.findings.append files).refuse
  match result with
  | .ok _ => Program.note .debug "Configuration validation passed"
  | .error _ => pure ()
  return result

theorem isName_ne_empty {s : String} (h : isName s = true) : s ≠ "" := by
  intro e
  subst e
  simp [isName] at h

end Config

end Groundwork
