import Groundwork.Hash.Sha256
import Groundwork.Infrastructure.Node
import Groundwork.Json.Writer

/-!
# Fingerprints of module invocations

The fingerprint of an invocation covers what the plugin is given: the plugin, the image and the inputs.  It
is the hash of their compact text, in which fields come in the order of their names.
-/

namespace Groundwork.Plan

/-- What is hashed of an invocation. -/
def invocation (plugin : PluginKind) (image : String) (inputs : Value) : Value :=
  .obj [("image", .str image), ("inputs", inputs), ("plugin", .str plugin.name)]

/-- The text that is hashed of an invocation. -/
def invocationText (plugin : PluginKind) (image : String) (inputs : Value) : String :=
  Json.compact (invocation plugin image inputs)

/-- The fingerprint of an invocation. -/
def fingerprint (plugin : PluginKind) (image : String) (inputs : Value) : String :=
  Sha256.hexDigest (invocationText plugin image inputs)

/-- The fingerprint of a node as it stands. -/
def nodeFingerprint (n : InfraNode) : String := fingerprint n.plugin n.image n.inputs

/-- The first eight characters of a fingerprint. -/
def short (hash : String) : String := String.ofList (hash.toList.take 8)

end Groundwork.Plan
