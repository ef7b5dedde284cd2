import PecsRegistry.Directory.System
import PecsRegistry.Selector.Context

/-!
# Service/System — the registry service over a directory and a selector

`RegistryService::select_instance_with_context` loads the service through the directory, answers
none on an empty list, and otherwise asks the selector.  `register` and `deregister` reach the
directory as an applied event and a shutdown, `discover` as a load; they are directory steps.
-/

namespace PecsRegistry

/-- The facade: its directory, its selector, the selections whose load is under way, by the number
of the load, and what the selections so far have answered. -/
structure RegistryService (S : Type) where
  directory : ServiceDirectory
  selector : S
  requests : ℕ → Option SelectContext
  answers : List (SelectContext × Option ServiceInstance)

/-- A step of the directory; a selection starts its load; its load has returned, and it answers. -/
inductive ServiceLabel
  | directory (l : DirectoryLabel)
  | request (i : ℕ) (ctx : SelectContext)
  | respond (i : ℕ) (clock : Clock)

namespace RegistryService

variable {S : Type}

def fromParts (directory : ServiceDirectory) (selector : S) : RegistryService S :=
  ⟨directory, selector, fun _ => none, []⟩

/-- A selection answers. -/
def answer (svc : RegistryService S) (i : ℕ) (ctx : SelectContext)
    (chosen : Option ServiceInstance) (selector : S) : RegistryService S :=
  { svc with
    selector := selector
    requests := Function.update svc.requests i none
    answers := svc.answers ++ [(ctx, chosen)] }

/-- What a selection answers once its load has returned; a failed load ends it without one. -/
def selectLoaded [Selector S] (svc : RegistryService S) (clock : Clock) (ctx : SelectContext)
    (instances : List ServiceInstance) : Option (Option ServiceInstance × S) :=
  if instances.isEmpty then some (none, svc.selector)
  else Selector.select svc.selector clock (ctx, instances)

/-- One step of the service. -/
def step [Selector S] (svc : RegistryService S) : ServiceLabel → Option (RegistryService S)
  | .directory l => (svc.directory.step l).map fun directory => { svc with directory := directory }
  | .request i ctx =>
      (svc.directory.step (.call i (.loadOrWatch ctx.serviceName))).map fun directory =>
        { svc with directory := directory, requests := Function.update svc.requests i (some ctx) }
  | .respond i clock =>
      match svc.requests i, svc.directory.calls i with
      | some ctx, .returned (.ok instances) =>
          (svc.selectLoaded clock ctx instances).map fun r => svc.answer i ctx r.1 r.2
      | _, _ => none

end RegistryService

end PecsRegistry
