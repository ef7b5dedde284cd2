import Mathlib.Data.PNat.Basic
import PecsRegistry.Foundations.Instance

/-!
# Provider/Etcd/Config — the configuration of an etcd registry and the keys it writes

What the etcd provider reads of `RegistryConfig`, and the key an instance is stored under.
-/

namespace PecsRegistry

structure RegistryConfig where
  enable : Bool
  host : String
  port : UInt16
  «namespace» : String
  group : String
  ttl : UInt64
deriving DecidableEq

/-- `trim_matches('/')`: the slashes at both ends are dropped. -/
def trimSlashes (s : String) : String :=
  String.ofList (((s.toList.dropWhile (· = '/')).reverse.dropWhile (· = '/')).reverse)

namespace RegistryConfig

def default : RegistryConfig := ⟨true, "127.0.0.1", 2379, "pecs", "dev", 30⟩

/-- The provider is switched on: `enable` is set and the host is not blank. -/
def active (config : RegistryConfig) : Bool := config.enable && !config.host.toList.all isWhitespace

/-- The time to live asked of a lease, in seconds: ten if none is configured.  Etcd raises one that
is not positive. -/
def leaseTtl (config : RegistryConfig) : ℕ+ :=
  let ttl : ℤ := if 0 < config.ttl then config.ttl.toInt64.toInt else 10
  ttl.toNat.toPNat'

/-- `/{namespace}/{group}/{service_name}/{service_id}`. -/
def makeInstanceKey (config : RegistryConfig) (serviceName serviceId : String) : String :=
  "/" ++ trimSlashes config.namespace ++ "/" ++ trimSlashes config.group ++ "/"
    ++ trimSlashes serviceName ++ "/" ++ trimSlashes serviceId

/-- `/{namespace}/{group}/{service_name}/`. -/
def makeServicePrefix (config : RegistryConfig) (serviceName : String) : String :=
  "/" ++ trimSlashes config.namespace ++ "/" ++ trimSlashes config.group ++ "/"
    ++ trimSlashes serviceName ++ "/"

/-- The key of an instance. -/
def keyOf (config : RegistryConfig) (inst : ServiceInstance) : String :=
  config.makeInstanceKey inst.name inst.serviceId

end RegistryConfig

end PecsRegistry
