import PecsRegistry.Directory.Moves
import PecsRegistry.Provider.Local.Calls

/-!
# Service/Local — `RegistryService::register` and `deregister` over the local registry

`register` registers with the provider, waits for it to return, and then applies the upsert to the
directory.  `deregister` first shuts the directory down, and then deregisters with the provider.
The call of the provider, and the shutdown of the directory, have the number of the service's call.
`discover` and `unwatch` are calls of the directory.
-/

namespace PecsRegistry

open Transition

/-- Where a `register` or a `deregister` of the service stands. -/
inductive ServiceCall
  | idle
  | registering (inst : ServiceInstance)
  | announced
  | shuttingDown
  | deregistering
deriving DecidableEq

/-- The directory over the local registry, and the calls of the service. -/
structure LocalService where
  deployment : Deployment LocalSystem
  calls : ℕ → ServiceCall

/-- A step of the directory or of the registry; a `register` calls the provider, and applies its
upsert; a `deregister` shuts the directory down, and calls the provider. -/
inductive LocalServiceLabel
  | deployment (l : DirectoryLabel ⊕ LocalLabel)
  | register (i : ℕ) (inst : ServiceInstance)
  | announce (i : ℕ)
  | deregister (i : ℕ)
  | revoke (i : ℕ)

namespace LocalService

variable {s s' : LocalService}

/-- A fresh service over a fresh registry, and over whatever an earlier process left on disk. -/
def start (diskCache : Bool) (disk : Disk) : LocalService :=
  ⟨⟨.withOptions diskCache disk, .new⟩, fun _ => .idle⟩

/-- The deployment takes a step, and call `i` moves. -/
def advance (s : LocalService) (l : DirectoryLabel ⊕ LocalLabel) (i : ℕ) (c : ServiceCall) :
    Option LocalService :=
  (LocalSystem.provider.step s.deployment l).map fun deployment =>
    ⟨deployment, Function.update s.calls i c⟩

/-- One step of the service.  An event is applied by a `register` or by a watch task, by nobody
else. -/
def step (s : LocalService) : LocalServiceLabel → Option LocalService
  | .deployment (.inl (.apply _ _)) => none
  | .deployment l =>
      (LocalSystem.provider.step s.deployment l).map fun deployment =>
        { s with deployment := deployment }
  | .register i inst =>
      match s.calls i with
      | .idle => s.advance (.inr (.call i (.register inst))) i (.registering inst)
      | _ => none
  | .announce i =>
      match s.calls i, s.deployment.registry.calls i with
      | .registering inst, .returned =>
          s.advance (.inl (.apply inst.name (.upsert inst))) i .announced
      | _, _ => none
  | .deregister i =>
      match s.calls i with
      | .idle => s.advance (.inl (.call i .shutdown)) i .shuttingDown
      | _ => none
  | .revoke i =>
      match s.calls i, s.deployment.directory.calls i with
      | .shuttingDown, .finished => s.advance (.inr (.call i .deregister)) i .deregistering
      | _, _ => none

/-- The event, if the label applies one from outside, is the upsert of a registration. -/
def Announces : DirectoryLabel ⊕ LocalLabel → Prop
  | .inl (.apply name event) => ∃ inst : ServiceInstance, name = inst.name ∧ event = .upsert inst
  | _ => True

theorem step_of_advance {l : DirectoryLabel ⊕ LocalLabel} {i : ℕ} {c : ServiceCall}
    (h : s.advance l i c = some s') :
    LocalSystem.provider.step s.deployment l = some s'.deployment := by
  obtain ⟨deployment, hstep, rfl⟩ := Option.map_eq_some_iff.mp h
  exact hstep

/-- **A step of the service is a step of its deployment.** -/
theorem deployment_step {l : LocalServiceLabel} (h : s.step l = some s') :
    ∃ l', LocalSystem.provider.step s.deployment l' = some s'.deployment ∧ Announces l' := by
  revert h
  fun_cases step s l <;> intro h
  case case1 => simp at h
  case case2 l hl =>
    obtain ⟨deployment, hstep, rfl⟩ := Option.map_eq_some_iff.mp h
    refine ⟨l, hstep, ?_⟩
    rcases l with (_ | _ | _ | ⟨name, event⟩ | _) | _
    case inl.apply => exact (hl name event rfl).elim
    all_goals trivial
  case case5 inst _ _ => exact ⟨_, step_of_advance h, inst, rfl, rfl⟩
  all_goals first
    | exact ⟨_, step_of_advance h, trivial⟩
    | simp at h

end LocalService

end PecsRegistry
