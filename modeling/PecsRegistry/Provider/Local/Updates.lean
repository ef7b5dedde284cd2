import PecsRegistry.Machinery.Transition
import PecsRegistry.Provider.Local.Calls

/-!
# Provider/Local/Updates — operations on the local registry made one at a time

A `register` or `deregister` that nobody interrupts runs its steps to the end (`run_register`,
`run_deregister`); `update` is what it makes of the registry.  Every update but a `clear` broadcasts
one event (`announced`), and is to the map of each service the write that event stands for.
-/

namespace PecsRegistry

open Transition Writes

/-- An operation that changes the registry. -/
inductive LocalUpdate
  | addInstance (inst : ServiceInstance)
  | removeInstance (serviceName serviceId : String)
  | clear
  | register (inst : ServiceInstance)
  | deregister
deriving DecidableEq

namespace LocalSystem

variable {s : LocalSystem} {i : ℕ}

/-- A whole operation. -/
def update (s : LocalSystem) : LocalUpdate → LocalSystem
  | .addInstance inst => { s with registry := s.registry.addInstance inst }
  | .removeInstance serviceName serviceId =>
      { s with registry := s.registry.removeInstance serviceName serviceId }
  | .clear => { s with registry := s.registry.clear }
  | .register inst =>
      { s with
        registry := (s.registry.file inst).send (.upsert inst)
        registeredKey := some (inst.name, inst.serviceId) }
  | .deregister =>
      match s.registeredKey with
      | some (serviceName, serviceId) =>
          { s with
            registry := (s.registry.unfile serviceName serviceId).send
              (.delete serviceName serviceId)
            registeredKey := none }
      | none => s

theorem run_register (hi : s.calls i = .idle) (inst : ServiceInstance) :
    run act s [.call i (.register inst), .call i .setKey, .call i .send]
      = some ((s.update (.register inst)).setCall i .returned) := by
  simp [act, hi, callStep, setCall, update]

theorem run_deregister (hi : s.calls i = .idle) {serviceName serviceId : String}
    (hkey : s.registeredKey = some (serviceName, serviceId)) :
    run act s [.call i .deregister, .call i .remove, .call i .send]
      = some ((s.update .deregister).setCall i .returned) := by
  simp [act, hi, hkey, callStep, setCall, update]

/-- The event an operation broadcasts, if any. -/
def announced (s : LocalSystem) : LocalUpdate → Option ServiceEvent
  | .addInstance inst | .register inst => some (.upsert inst)
  | .removeInstance serviceName serviceId => some (.delete serviceName serviceId)
  | .deregister => s.registeredKey.map fun key => .delete key.1 key.2
  | .clear => none

/-- **An operation is the write it broadcasts**, to the map of every service; a `clear` is not
broadcast. -/
theorem view_update {u : LocalUpdate} (hu : u ≠ .clear) (name : String) :
    (s.update u).view name
      = replay (writesTo name (s.announced u).toList) (s.view name) := by
  cases u with
  | addInstance inst | register inst => exact view_file s.registry inst name
  | removeInstance serviceName serviceId =>
    exact view_unfile s.registry serviceName serviceId name
  | clear => exact absurd rfl hu
  | deregister =>
    cases hkey : s.registeredKey with
    | none => simp [update, announced, hkey, writesTo]
    | some key =>
      simp only [update, announced, hkey]
      exact view_unfile s.registry key.1 key.2 name

/-- …and sends the event to every receiver. -/
theorem receivers_update (s : LocalSystem) (u : LocalUpdate) :
    (s.update u).registry.receivers = match s.announced u with
      | some event => s.registry.receivers.map (Receiver.send event)
      | none => s.registry.receivers := by
  cases u with
  | deregister =>
    cases hkey : s.registeredKey with
    | none => simp [update, announced, hkey]
    | some key =>
      simp only [update, announced, hkey]
      rfl
  | _ => rfl

end LocalSystem

end PecsRegistry
