import Groundwork.Failure

/-!
# Kinds of failures

A failure has a kind, which is a word for programs, beside its text, which is for people.  The kind of a
failure that holds another one is the path to the inner one.
-/

namespace Groundwork

/-- Failures that have a kind and a text. -/
class Described (ε : Type) where
  kind : ε → List String
  message : ε → String

/-- The kind of a failure of a graph. -/
def GraphError.kind : GraphError → String
  | .nodeNotFound .. => "NodeNotFound"
  | .edgeNotFound .. => "EdgeNotFound"
  | .danglingEdge .. => "DanglingEdge"
  | .cycle .. => "Cycle"

/-- The kind of a failure of an expression. -/
def ExpressionError.kind : ExpressionError → String
  | .parse .. => "Parse"
  | .evaluation .. => "Evaluation"
  | .invalidReference .. => "InvalidReference"
  | .missingOutputs .. => "MissingOutputs"
  | .missingOutputKey .. => "MissingOutputKey"

/-- The kind of a failure of a compilation. -/
def CompileError.kind : CompileError → List String
  | .duplicateModule .. => ["DuplicateModule"]
  | .invalidModuleReference .. => ["InvalidModuleReference"]
  | .invalidOutputProperties .. => ["InvalidOutputProperties"]
  | .missingResourceHook .. => ["MissingResourceHook"]
  | .moduleReferencesNotAllowedInWhenClause .. => ["ModuleReferencesNotAllowedInWhenClause"]
  | .invalidWhenClause .. => ["InvalidWhenClause"]
  | .circularVariableDependency .. => ["CircularVariableDependency"]
  | .unknownVariable .. => ["UnknownVariable"]
  | .unresolvedVariable .. => ["UnresolvedVariable"]
  | .invalidDependencyReference .. => ["InvalidDependencyReference"]
  | .unresolvedExpression .. => ["UnresolvedExpression"]
  | .unsupportedVersion .. => ["UnsupportedVersion"]
  | .invalidDefinition .. => ["InvalidDefinition"]
  | .graph e => ["Graph", e.kind]
  | .expression e => ["Expression", e.kind]

/-- The kind of a failure of a run. -/
def RunError.kind : RunError → String
  | .unresolvedReference .. => "UnresolvedReference"
  | .nodeFailed .. => "NodeFailed"
  | .invariantViolation .. => "InvariantViolation"
  | .taskFailed .. => "TaskFailed"

/-- The kind of a failure of a plugin. -/
def PluginError.kind : PluginError → String
  | .serverStart .. => "ServerStart"
  | .unknownSocket .. => "PortDiscovery"
  | .connection .. => "Connection"
  | .protocol .. => "Protocol"
  | .remote .. => "Remote"

/-- The kind of a failure of a store. -/
def StateError.kind : StateError → String
  | .corrupted .. => "Corrupted"
  | .lockFailed .. => "LockFailed"
  | .lockedByOther .. => "LockedByOther"
  | .storage .. => "Storage"
  | .bucket .. => "S3Error"
  | .serialization .. => "SerializationError"
  | .versionMismatch .. => "VersionMismatch"

/-- The kind of a failure of a configuration. -/
def ConfigError.kind : ConfigError → String
  | .fileNotFound .. => "FileNotFound"
  | .parse .. => "ParseError"
  | .validation .. => "ValidationError"
  | .unsupportedFormat .. => "UnsupportedFormat"

/-- The kind of any failure. -/
def Failure.kind : Failure → List String
  | .graph e => ["Graph", e.kind]
  | .expression e => ["Expression", e.kind]
  | .compile e => "Compile" :: e.kind
  | .run e => ["Execution", e.kind]
  | .plugin e => ["Plugin", e.kind]
  | .state e => ["State", e.kind]
  | .config e => ["Config", e.kind]
  | .system _ => ["Io"]
  | .internal _ => ["Internal"]

instance : Described GraphError := ⟨fun e => [e.kind], GraphError.message⟩
instance : Described ExpressionError := ⟨fun e => [e.kind], ExpressionError.message⟩
instance : Described CompileError := ⟨CompileError.kind, CompileError.message⟩
instance : Described RunError := ⟨fun e => [e.kind], RunError.message⟩
instance : Described PluginError := ⟨fun e => [e.kind], PluginError.message⟩
instance : Described StateError := ⟨fun e => [e.kind], StateError.message⟩
instance : Described ConfigError := ⟨fun e => [e.kind], ConfigError.message⟩
instance : Described Failure := ⟨Failure.kind, Failure.message⟩

end Groundwork
