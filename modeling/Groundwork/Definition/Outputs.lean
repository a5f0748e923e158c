import Groundwork.Data.Value

/-!
# Required outputs

The outputs that a hook owes to the app nodes that depend on a node of its type.  An output that is null is
missing; types that are not listed require nothing.
-/

namespace Groundwork.Definition

/-- The outputs that every resource of a type must have. -/
def requiredOutputs : String → List String
  | "database" => ["protocol", "host", "port", "name", "url", "account", "username", "password"]
  | "databaseCluster" => ["protocol", "host", "port", "username", "password"]
  | "databaseSize" => ["databaseType", "databaseVersion"]
  | "databaseVersion" => ["databaseType", "databaseVersion"]
  | "databaseUser" => ["protocol", "host", "port", "database", "username", "password", "url"]
  | "dnsRecord" => ["name", "data", "recordType", "managedZone"]
  | "dnsZone" => ["name", "nameservers"]
  | "ingressRule" => ["host", "port", "url", "path", "loadBalancerHostname"]
  | "kubernetesCluster" => ["name", "vpc", "kubernetesVersion", "configPath"]
  | "kubernetesVersion" => ["name"]
  | "module" => ["name"]
  | "region" => ["name"]
  | "secret" => ["data"]
  | "service" => ["account", "host", "name", "port", "protocol", "target_port", "url"]
  | "vpc" => ["name", "region"]
  | _ => []

/-- The required outputs that are missing. -/
def missingOutputs (resourceType : String) (outputs : Value) : List String :=
  (requiredOutputs resourceType).filter fun k => (outputs.get? k).all Value.isNull

end Groundwork.Definition
