import PecsRegistry.Provider.Local

/-!
# Provider/Local/Calls — `register` and `deregister` of the local registry, step by step

`add_instance` and `remove_instance` change the store and broadcast the change under one lock.
`register` and `deregister` release the lock in between: a call files its instance, sets the key of
the last registration and then sends; or takes the key, removes the instance and then sends.  So the
broadcasts of concurrent calls need not come in the order of their changes.
-/

namespace PecsRegistry

open Writes

namespace LocalRegistry

/-- A store change without its broadcast, and a broadcast without a store change. -/
def file (reg : LocalRegistry) (inst : ServiceInstance) : LocalRegistry :=
  { reg with store := reg.store.insert inst }

def unfile (reg : LocalRegistry) (serviceName serviceId : String) : LocalRegistry :=
  { reg with store := reg.store.remove serviceName serviceId }

def send (reg : LocalRegistry) (event : ServiceEvent) : LocalRegistry :=
  { reg with receivers := reg.receivers.map (Receiver.send event) }

end LocalRegistry

/-! ## The calls -/

/-- Where a call stands: a `register` has filed its instance, and set the key; a `deregister` has
taken the key, and removed the instance. -/
inductive LocalCall
  | idle
  | stored (inst : ServiceInstance)
  | keyed (inst : ServiceInstance)
  | taken (serviceName serviceId : String)
  | removed (serviceName serviceId : String)
  | returned
deriving DecidableEq

/-- The event that reports what the call has changed, as long as it has not sent it. -/
def LocalCall.owes : LocalCall → Option ServiceEvent
  | .stored inst | .keyed inst => some (.upsert inst)
  | .removed serviceName serviceId => some (.delete serviceName serviceId)
  | _ => none

/-- What a call does next. -/
inductive LocalCallLabel
  | register (inst : ServiceInstance)
  | setKey
  | deregister
  | remove
  | send

/-- The registry, the key of its last registration, and its calls. -/
structure LocalSystem where
  registry : LocalRegistry
  registeredKey : Option (String × String)
  calls : ℕ → LocalCall

/-- An operation in one step, or one step of a call. -/
inductive LocalLabel
  | op (op : LocalOp)
  | call (i : ℕ) (l : LocalCallLabel)

namespace LocalSystem

def new : LocalSystem := ⟨.new, none, fun _ => .idle⟩

/-- The instances of a service, by id. -/
def view (s : LocalSystem) (name : String) : String → Option ServiceInstance := s.registry.view name

def setCall (s : LocalSystem) (i : ℕ) (c : LocalCall) : LocalSystem :=
  { s with calls := Function.update s.calls i c }

/-- One step of a `register` or a `deregister`. -/
def callStep (s : LocalSystem) (i : ℕ) : LocalCall → LocalCallLabel → Option LocalSystem
  | .idle, .register inst =>
      some ({ s with registry := s.registry.file inst }.setCall i (.stored inst))
  | .stored inst, .setKey =>
      some ({ s with registeredKey := some (inst.name, inst.serviceId) }.setCall i (.keyed inst))
  | .keyed inst, .send =>
      some ({ s with registry := s.registry.send (.upsert inst) }.setCall i .returned)
  | .idle, .deregister =>
      match s.registeredKey with
      | some (serviceName, serviceId) =>
          some ({ s with registeredKey := none }.setCall i (.taken serviceName serviceId))
      | none => some (s.setCall i .returned)
  | .taken serviceName serviceId, .remove =>
      some ({ s with registry := s.registry.unfile serviceName serviceId }.setCall i
        (.removed serviceName serviceId))
  | .removed serviceName serviceId, .send =>
      some ({ s with registry := s.registry.send (.delete serviceName serviceId) }.setCall i
        .returned)
  | _, _ => none

def act (s : LocalSystem) : LocalLabel → Option LocalSystem
  | .op op => (s.registry.act op).map fun registry => { s with registry := registry }
  | .call i l => s.callStep i (s.calls i) l

def answer (s : LocalSystem) (q : Query) : Option LocalSystem :=
  (s.registry.answer q).map fun registry => { s with registry := registry }

def provider : Provider LocalSystem LocalLabel := ⟨act, answer⟩

variable {s s' : LocalSystem} {i : ℕ}

/-- The moves of a call. -/
inductive CallMove (s : LocalSystem) (i : ℕ) : LocalCallLabel → LocalSystem → Prop
  | register (inst : ServiceInstance) (at_ : s.calls i = .idle) :
      CallMove s i (.register inst)
        ({ s with registry := s.registry.file inst }.setCall i (.stored inst))
  | setKey {inst : ServiceInstance} (at_ : s.calls i = .stored inst) :
      CallMove s i .setKey
        ({ s with registeredKey := some (inst.name, inst.serviceId) }.setCall i (.keyed inst))
  | announce {inst : ServiceInstance} (at_ : s.calls i = .keyed inst) :
      CallMove s i .send
        ({ s with registry := s.registry.send (.upsert inst) }.setCall i .returned)
  | take {serviceName serviceId : String} (at_ : s.calls i = .idle)
      (key : s.registeredKey = some (serviceName, serviceId)) :
      CallMove s i .deregister
        ({ s with registeredKey := none }.setCall i (.taken serviceName serviceId))
  | unregistered (at_ : s.calls i = .idle) (key : s.registeredKey = none) :
      CallMove s i .deregister (s.setCall i .returned)
  | remove {serviceName serviceId : String} (at_ : s.calls i = .taken serviceName serviceId) :
      CallMove s i .remove
        ({ s with registry := s.registry.unfile serviceName serviceId }.setCall i
          (.removed serviceName serviceId))
  | withdraw {serviceName serviceId : String} (at_ : s.calls i = .removed serviceName serviceId) :
      CallMove s i .send
        ({ s with registry := s.registry.send (.delete serviceName serviceId) }.setCall i .returned)

theorem callMove_of_callStep {l : LocalCallLabel} (h : s.callStep i (s.calls i) l = some s') :
    CallMove s i l s' := by
  generalize hc : s.calls i = c at h
  revert h
  fun_cases callStep s i c l <;> intro h <;>
    simp only [reduceCtorEq, Option.some.injEq] at h <;> subst h
  case case1 => exact .register _ hc
  case case2 => exact .setKey hc
  case case3 => exact .announce hc
  case case4 key => exact .take hc key
  case case5 key => exact .unregistered hc key
  case case6 => exact .remove hc
  case case7 => exact .withdraw hc

/-! ## Store changes and broadcasts -/

/-- The store changes of a step, each as the event that reports it. -/
def stores (s : LocalSystem) : LocalLabel → List ServiceEvent
  | .op (.addInstance inst) => [.upsert inst]
  | .op (.removeInstance serviceName serviceId) => [.delete serviceName serviceId]
  | .call _ (.register inst) => [.upsert inst]
  | .call i .remove =>
      match s.calls i with
      | .taken serviceName serviceId => [.delete serviceName serviceId]
      | _ => []
  | _ => []

/-- The broadcasts of a step. -/
def sends (s : LocalSystem) : LocalLabel → List ServiceEvent
  | .op (.addInstance inst) => [.upsert inst]
  | .op (.removeInstance serviceName serviceId) => [.delete serviceName serviceId]
  | .call i .send => (s.calls i).owes.toList
  | _ => []

/-- The writes that events make to the map of a service. -/
def writesTo (name : String) (events : List ServiceEvent) : List (Write String ServiceInstance) :=
  (events.filter (·.concerns name)).map ServiceEvent.write

theorem writesTo_append (name : String) (es es' : List ServiceEvent) :
    writesTo name (es ++ es') = writesTo name es ++ writesTo name es' := by
  rw [writesTo, List.filter_append, List.map_append, writesTo, writesTo]

theorem writesTo_singleton (name : String) (event : ServiceEvent) :
    writesTo name [event] = if event.concerns name then [event.write] else [] := by
  cases h : event.concerns name <;> simp [writesTo, h]

theorem view_file (reg : LocalRegistry) (inst : ServiceInstance) (name : String) :
    (reg.file inst).view name = replay (writesTo name [.upsert inst]) (reg.view name) := by
  rw [writesTo_singleton]
  exact reg.store.view_upsert inst name

theorem view_unfile (reg : LocalRegistry) (serviceName serviceId name : String) :
    (reg.unfile serviceName serviceId).view name
      = replay (writesTo name [.delete serviceName serviceId]) (reg.view name) := by
  rw [writesTo_singleton]
  exact reg.store.view_delete serviceName serviceId name

/-- **The store is the replay of its changes**, unless it is cleared. -/
theorem view_act {l : LocalLabel} (h : s.act l = some s') (hclear : l ≠ .op .clear)
    (name : String) : s'.view name = replay (writesTo name (s.stores l)) (s.view name) := by
  cases l with
  | op op =>
    obtain ⟨registry, hact, rfl⟩ := Option.map_eq_some_iff.mp h
    cases op with
    | addInstance inst =>
      obtain rfl := Option.some.inj hact
      exact view_file s.registry inst name
    | removeInstance serviceName serviceId =>
      obtain rfl := Option.some.inj hact
      exact view_unfile s.registry serviceName serviceId name
    | clear => exact absurd rfl hclear
    | skip stream =>
      obtain ⟨rx, rx', -, -, -, -, rfl⟩ := LocalRegistry.poll_none (LocalRegistry.act_skip hact)
      rfl
  | call i l =>
    cases callMove_of_callStep h with
    | register inst at_ => exact view_file s.registry inst name
    | remove at_ =>
      rw [stores, at_]
      exact view_unfile s.registry _ _ name
    | _ => rfl

end LocalSystem

end PecsRegistry
