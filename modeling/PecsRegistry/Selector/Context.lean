import PecsRegistry.Foundations.Instance

/-!
# Selector/Context — what a selection is asked for

A selector picks one instance of a list, in a context: the service called, and the client address,
routing tag and routing key of the request.  `Selector` is the contract they share: a selection may
read the clock, may change the selector's state, and answers an instance or none; the outer `none`
is a panic.
-/

namespace PecsRegistry

/-- The routing context of one request. -/
structure SelectContext where
  serviceName : String
  clientIp : Option String
  requiredTag : Option (String × String)
  key : Option String
deriving DecidableEq

def SelectContext.new (serviceName : String) : SelectContext := ⟨serviceName, none, none, none⟩

def SelectContext.withKey (ctx : SelectContext) (key : String) : SelectContext :=
  { ctx with key := some key }

/-- One call of a selector: the context, and the instances to pick from. -/
abbrev SelectCall := SelectContext × List ServiceInstance

/-- The clock readings a selection takes, in nanoseconds since the epoch, cut to a `usize`. -/
abbrev Clock := ℕ → UInt64

/-- The contract of a selector. -/
class Selector (S : Type) where
  select : S → Clock → SelectCall → Option (Option ServiceInstance × S)

end PecsRegistry
