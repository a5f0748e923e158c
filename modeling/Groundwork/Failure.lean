/-!
# Failures

All failures that a user can meet, by the part of the work they come from, with the advice whether to try
again: a connection may come up, and a lock may be given back.  What the file system refuses is told by those who
asked it.
-/

namespace Groundwork

/-! ### Failures of graph operations -/

/-- Why a graph operation failed. -/
inductive GraphError where
  /-- No node has this id. -/
  | nodeNotFound (id : String)
  /-- No edge has these ends; a missing end stands for any node. -/
  | edgeNotFound (source target : Option String)
  /-- An edge has an end that is no node of the graph. -/
  | danglingEdge (source target missing : String)
  /-- These nodes lie on a cycle or depend on one. -/
  | cycle (nodes : List String)
  deriving DecidableEq, Repr, Inhabited

/-- The text of a failure. -/
def GraphError.message : GraphError → String
  | .nodeNotFound id => "Node not found: " ++ id
  | .edgeNotFound source target =>
      "Edge not found: " ++ source.getD "*" ++ " -> " ++ target.getD "*"
  | .danglingEdge source target missing =>
      "Edge " ++ source ++ " -> " ++ target ++ " references missing node " ++ missing
  | .cycle nodes => "Dependency cycle detected between: " ++ ", ".intercalate nodes

/-! ### Failures of expressions

Expressions are read in two places: as guards, which have a grammar and an evaluation, and as references
to outputs, which name a node and a key. -/

/-- Why an expression could not be read, evaluated or resolved. -/
inductive ExpressionError where
  /-- The text is no expression. -/
  | parse (expression message : String)
  /-- The operands do not fit the operator. -/
  | evaluation (expression message : String)
  /-- The text names no node and key. -/
  | invalidReference (expression : String)
  /-- The named node has no outputs. -/
  | missingOutputs (node : String)
  /-- The outputs of the named node lack the key. -/
  | missingOutputKey (node key : String)
  deriving DecidableEq, Repr, Inhabited

/-- The text of a failure. -/
def ExpressionError.message : ExpressionError → String
  | .parse expression message => "Failed to parse expression '" ++ expression ++ "': " ++ message
  | .evaluation expression message =>
      "Failed to evaluate expression '" ++ expression ++ "': " ++ message
  | .invalidReference expression => "Invalid output reference: " ++ expression
  | .missingOutputs node => "Missing outputs for " ++ node
  | .missingOutputKey node key => "Invalid output key " ++ key ++ " for " ++ node

/-! ### Failures of compilation

Any of these ends the compilation of a definition; no partial graph is given back. -/

/-- Why a definition could not be compiled. -/
inductive CompileError where
  /-- Two modules of one scope have the same name. -/
  | duplicateModule (name : String)
  /-- A module refers to one that it cannot see. -/
  | invalidModuleReference (module reference : String)
  /-- The outputs of a hook lack required fields. -/
  | invalidOutputProperties (resourceType node : String) (missing : List String)
  /-- An app node depends on one that no hook serves. -/
  | missingResourceHook (node source : String)
  /-- A guard mentions modules. -/
  | moduleReferencesNotAllowedInWhenClause (resourceType clause : String)
  /-- A guard is no expression, or its value is not a truth value. -/
  | invalidWhenClause (clause message : String)
  /-- Variables depend on each other in a cycle. -/
  | circularVariableDependency (source target : String)
  /-- A variable refers to one that is not declared. -/
  | unknownVariable (owner reference : String)
  /-- A variable that is referred to has no value. -/
  | unresolvedVariable (name : String)
  /-- A component refers to a dependency that it does not declare. -/
  | invalidDependencyReference (dependency : String)
  /-- A token was left that refers to no node. -/
  | unresolvedExpression (node token : String)
  /-- The definition has an unknown version. -/
  | unsupportedVersion (version : String)
  /-- The document is no definition. -/
  | invalidDefinition (message : String)
  | graph (e : GraphError)
  | expression (e : ExpressionError)
  deriving DecidableEq, Repr, Inhabited

/-- The text of a failure. -/
def CompileError.message : CompileError → String
  | .duplicateModule name => "Duplicate module name: " ++ name
  | .invalidModuleReference module reference =>
      "Module " ++ module ++ " references unknown or out-of-scope module " ++ reference
  | .invalidOutputProperties resourceType node missing =>
      "Invalid outputs for " ++ resourceType ++ " hook on " ++ node ++ ": missing "
        ++ ", ".intercalate missing
  | .missingResourceHook node source =>
      "Missing resource hook for " ++ node ++ " (required by " ++ source ++ ")"
  | .moduleReferencesNotAllowedInWhenClause resourceType clause =>
      "Module references are not allowed in when clauses (" ++ resourceType ++ ": " ++ clause ++ ")"
  | .invalidWhenClause clause message => "Invalid when clause '" ++ clause ++ "': " ++ message
  | .circularVariableDependency source target =>
      "Circular dependency detected between variables " ++ source ++ " and " ++ target
  | .unknownVariable owner reference =>
      "Variable " ++ owner ++ " references unknown variable " ++ reference
  | .unresolvedVariable name => "Variable " ++ name ++ " has no value"
  | .invalidDependencyReference dependency => "Unknown dependency: " ++ dependency
  | .unresolvedExpression node token =>
      "Unresolved expression in " ++ node ++ ": " ++ token
  | .unsupportedVersion version => "Unsupported datacenter version: " ++ version
  | .invalidDefinition message => "Invalid datacenter definition: " ++ message
  | .graph e => e.message
  | .expression e => e.message

/-! ### Failures of runs -/

/-- Why a run did not come to a good end. -/
inductive RunError where
  /-- The inputs of a node refer to outputs that are not there. -/
  | unresolvedReference (node : String) (cause : ExpressionError)
  /-- The plugin failed to apply a node. -/
  | nodeFailed (node message : String)
  /-- No node is left to start, but some are not complete. -/
  | invariantViolation (pending : List String)
  /-- A plugin call broke off. -/
  | taskFailed (message : String)
  deriving DecidableEq, Repr, Inhabited

/-- The text of a failure. -/
def RunError.message : RunError → String
  | .unresolvedReference node cause => "Unresolved reference in " ++ node ++ ": " ++ cause.message
  | .nodeFailed node message => "Failed to apply " ++ node ++ ": " ++ message
  | .invariantViolation pending =>
      "Execution finished with incomplete nodes: " ++ ", ".intercalate pending
  | .taskFailed message => "Apply task failed: " ++ message

/-! ### Failures of plugins -/

/-- Why a plugin did not do its work. -/
inductive PluginError where
  /-- The container did not start. -/
  | serverStart (plugin message : String)
  /-- The socket of the container is not known. -/
  | unknownSocket (plugin message : String)
  /-- There is no connection. -/
  | connection (message : String)
  /-- A message makes no sense. -/
  | protocol (message : String)
  /-- The plugin itself reports a failure. -/
  | remote (message : String)
  deriving DecidableEq, Repr, Inhabited

/-- The text of a failure. -/
def PluginError.message : PluginError → String
  | .serverStart plugin message => "Failed to start " ++ plugin ++ " plugin: " ++ message
  | .unknownSocket plugin message => "Failed to discover port for " ++ plugin ++ " plugin: " ++ message
  | .connection message => "Plugin connection failed: " ++ message
  | .protocol message => "Plugin protocol error: " ++ message
  | .remote message => message

/-! ### Refusals of the file system -/

/-- Why the file system refuses. -/
inductive FileError where
  | notFound
  | denied
  | alreadyExists
  | notDirectory
  | isDirectory
  /-- Links lead to links too often. -/
  | tooManyLinks
  /-- The bytes of a file are no text. -/
  | notText
  | other (message : String)
  deriving DecidableEq, Repr, Inhabited

/-- The text of a refusal, with the number that the system gives it. -/
def FileError.message : FileError → String
  | .notFound => "No such file or directory (os error 2)"
  | .denied => "Permission denied (os error 13)"
  | .alreadyExists => "File exists (os error 17)"
  | .notDirectory => "Not a directory (os error 20)"
  | .isDirectory => "Is a directory (os error 21)"
  | .tooManyLinks => "Too many levels of symbolic links (os error 40)"
  | .notText => "stream did not contain valid UTF-8"
  | .other message => message

/-! ### Failures of state stores -/

/-- Why a state store did not do what it was asked. -/
inductive StateError where
  | corrupted (message : String)
  | lockFailed (message : String)
  /-- Somebody else holds the lock. -/
  | lockedByOther (holder since : String)
  | storage (message : String)
  /-- The bucket refused. -/
  | bucket (message : String)
  | serialization (message : String)
  | versionMismatch (expected found : String)
  deriving DecidableEq, Repr, Inhabited

/-- The text of a failure. -/
def StateError.message : StateError → String
  | .corrupted message => "State is corrupted: " ++ message
  | .lockFailed message => "Failed to acquire state lock: " ++ message
  | .lockedByOther holder since =>
      "State is locked by another process (lock holder: " ++ holder ++ ", since: " ++ since ++ ")"
  | .storage message => "State storage error: " ++ message
  | .bucket message => "S3 state backend error: " ++ message
  | .serialization message => "State serialization error: " ++ message
  | .versionMismatch expected found =>
      "State version mismatch: expected " ++ expected ++ ", found " ++ found

/-! ### Failures of configurations -/

/-- Why a configuration or one of its documents cannot be used. -/
inductive ConfigError where
  | fileNotFound (path : String)
  | parse (message : String)
  /-- A setting is not acceptable; the field is named if there is one. -/
  | validation (message : String) (field : Option String)
  | unsupportedFormat (path : String)
  deriving DecidableEq, Repr, Inhabited

/-- The text of a failure. -/
def ConfigError.message : ConfigError → String
  | .fileNotFound path => "Configuration file not found: " ++ path
  | .parse message => "Failed to parse configuration: " ++ message
  | .validation message _ => "Configuration validation failed: " ++ message
  | .unsupportedFormat path => "Unsupported document format: " ++ path

/-! ### Failures of any part -/

/-- A failure of any part. -/
inductive Failure where
  | graph (e : GraphError)
  | expression (e : ExpressionError)
  | compile (e : CompileError)
  | run (e : RunError)
  | plugin (e : PluginError)
  | state (e : StateError)
  | config (e : ConfigError)
  /-- The operating system refused. -/
  | system (message : String)
  /-- What was asked for makes no sense here. -/
  | internal (message : String)
  deriving DecidableEq, Repr, Inhabited

namespace Failure

/-- The text of a failure. -/
def message : Failure → String
  | .graph e => "Graph error: " ++ e.message
  | .expression e => "Expression error: " ++ e.message
  | .compile e => "Compile error: " ++ e.message
  | .run e => "Execution error: " ++ e.message
  | .plugin e => "Plugin error: " ++ e.message
  | .state e => "State error: " ++ e.message
  | .config e => "Configuration error: " ++ e.message
  | .system m => "IO error: " ++ m
  | .internal m => "Internal error: " ++ m

/-- After how many seconds it makes sense to try again, if it does. -/
def retryDelay : Failure → Option Nat
  | .plugin (.connection _) => some 3
  | .state (.lockFailed _) => some 2
  | .state (.lockedByOther _ _) => some 2
  | _ => none

/-- Whether it makes sense to try again. -/
def isRetryable (f : Failure) : Bool := f.retryDelay.isSome

end Failure

end Groundwork
