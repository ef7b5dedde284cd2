import PecsRegistry.Directory.System
import PecsRegistry.Machinery.Paths
import PecsRegistry.Provider.Etcd.Listing

/-!
# Provider/Etcd/WatchEvents — which instance a deleted key removes

The watch of a service gets every event under the service's prefix.  A put carries the instance; a
delete carries only the key, and the watch takes what stands behind its last slash for the id.  So
an id with a slash in it is read back wrong: `removes_only_iff`.
-/

namespace PecsRegistry

open Paths Registrations

/-- An event of etcd; the value of a put decodes to an instance, or does not. -/
inductive EtcdEvent
  | put (key : String) (value : Option ServiceInstance)
  | delete (key : String)
deriving DecidableEq

def EtcdEvent.key : EtcdEvent → String
  | .put key _ | .delete key => key

/-- `key_str.rsplit('/').next()`. -/
def lastSegment (key : String) : String := String.ofList (baseName key.toList)

namespace RegistryConfig

variable {config : RegistryConfig} {serviceName serviceId : String}

/-- What the watch of a service sends on for an event of etcd. -/
def watchEvent (config : RegistryConfig) (svcName : String) (event : EtcdEvent) :
    Option ServiceEvent :=
  if (config.makeServicePrefix svcName).toList <+: event.key.toList then
    match event with
    | .put _ value => value.map .upsert
    | .delete key => some (.delete svcName (lastSegment key))
  else none

/-- **What a deleted key says**: the last segment of the trimmed id. -/
theorem watchEvent_delete (config : RegistryConfig) (serviceName serviceId : String) :
    config.watchEvent serviceName (.delete (config.makeInstanceKey serviceName serviceId))
      = some (.delete serviceName (lastSegment (trimSlashes serviceId))) := by
  have hkey : (config.makeInstanceKey serviceName serviceId).toList
      = (groupPath config ++ (trimSlashes serviceName).toList)
        ++ '/' :: (trimSlashes serviceId).toList := by
    simp [makeInstanceKey, groupPath]
  have hprefix : (config.makeServicePrefix serviceName).toList
      <+: (config.makeInstanceKey serviceName serviceId).toList := by
    rw [hkey, toList_makeServicePrefix]
    exact ⟨(trimSlashes serviceId).toList, by simp [pathPrefix]⟩
  have hsegment : lastSegment (config.makeInstanceKey serviceName serviceId)
      = lastSegment (trimSlashes serviceId) := by
    rw [lastSegment, hkey, baseName_append_slash, lastSegment]
  exact (if_pos hprefix).trans (congrArg (some <| ServiceEvent.delete serviceName ·) hsegment)

/-- The last segment of a trimmed id is the id, exactly if the id has no slash. -/
theorem lastSegment_trimSlashes_eq_iff :
    lastSegment (trimSlashes serviceId) = serviceId ↔ SlashFree serviceId := by
  constructor
  · intro h
    rw [SlashFree, ← h, lastSegment, String.toList_ofList]
    exact slash_notMem_baseName _
  · intro h
    rw [h.trimSlashes_eq, lastSegment, baseName_eq_self_iff.mpr h, String.ofList_toList]

/-- The deletion of the key of an id carries the id, and removes the instance with that id, and only
it, from the snapshot of the service, whatever that is. -/
def RemovesOnly (config : RegistryConfig) (serviceName serviceId : String) : Prop :=
  ∃ event, config.watchEvent serviceName
      (.delete (config.makeInstanceKey serviceName serviceId)) = some event
    ∧ event = .delete serviceName serviceId
    ∧ ∀ d : ServiceDirectory, Distinct (d.getInstances serviceName) →
      (∀ inst ∈ d.getInstances serviceName, inst.serviceId = serviceId →
        (d.applyEvent serviceName event).getInstances serviceName
          = (d.getInstances serviceName).erase inst)
      ∧ (serviceId ∉ serviceIds (d.getInstances serviceName) →
        (d.applyEvent serviceName event).getInstances serviceName = d.getInstances serviceName)

/-- **A deleted key removes the right instance, exactly** if its id has no slash. -/
theorem removes_only_iff (config : RegistryConfig) (serviceName serviceId : String) :
    config.RemovesOnly serviceName serviceId ↔ SlashFree serviceId := by
  constructor
  · rintro ⟨event, hevent, rfl, -⟩
    rw [watchEvent_delete] at hevent
    exact lastSegment_trimSlashes_eq_iff.mp (ServiceEvent.delete.inj (Option.some.inj hevent)).2
  · intro hfree
    refine ⟨.delete serviceName serviceId, ?_, rfl, fun d hd => ⟨?_, fun habsent => ?_⟩⟩
    · rw [watchEvent_delete, lastSegment_trimSlashes_eq_iff.mpr hfree]
    · rintro inst hinst rfl
      rw [ServiceDirectory.getInstances_applyEvent, if_pos rfl, hd.newList_delete hinst]
    · rw [ServiceDirectory.getInstances_applyEvent, if_pos rfl, newList, List.filter_eq_self]
      intro i hi
      exact decide_eq_true fun hid => habsent (mem_serviceIds.mpr ⟨i, hi, hid⟩)

/-- **A dead instance stays.**  The deleted key of `10.0.0.1/8080` is read as that of `8080`. -/
theorem keeps_dead_instance : ¬ ∀ (config : RegistryConfig) (serviceName serviceId : String),
    config.RemovesOnly serviceName serviceId := by
  intro h
  obtain ⟨event, hevent, rfl, -⟩ := h .default "order-svc" "10.0.0.1/8080"
  exact absurd hevent (by decide +kernel)

end RegistryConfig

end PecsRegistry
