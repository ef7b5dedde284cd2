import PecsRegistry.Directory.Moves
import PecsRegistry.Selector.Canary
import PecsRegistry.Selector.ConsistentHash
import PecsRegistry.Selector.P2C
import PecsRegistry.Selector.RoundRobin
import PecsRegistry.Selector.Weighted
import PecsRegistry.Service.System

/-!
# Service/Traffic — which instances can get a request

An instance enters the directory through a listing, an event, a direct `apply_event` or the disk,
and nothing on the way to a selection's answer looks at its `enabled` and `healthy` flags: not the
directory, and none of the selectors (`OfCrate.mem_of_select`).  So what a service answers is what
it was supplied with (`answers_supplied`), and no dead instance gets traffic if and only if none is
ever supplied (`never_dead_iff`).
-/

namespace PecsRegistry

open Transition

/-- The selectors of the crate. -/
inductive OfCrate : (S : Type) → Selector S → Prop
  | roundRobin : OfCrate RoundRobinSelector inferInstance
  | weighted : OfCrate WeightedRoundRobinSelector inferInstance
  | p2c : OfCrate P2CSelector inferInstance
  | consistentHash : OfCrate ConsistentHashSelector inferInstance
  | random : OfCrate RandomSelector inferInstance
  | tagFilter {S : Type} {selector : Selector S} :
      OfCrate S selector → OfCrate (TagFilterSelector S) inferInstance

/-- **A selector of the crate answers from the list it is given.** -/
theorem OfCrate.mem_of_select {S : Type} {selector : Selector S} (hS : OfCrate S selector) :
    ∀ (sel sel' : S) (clock : Clock) (call : SelectCall) (inst : ServiceInstance),
      selector.select sel clock call = some (some inst, sel') → inst ∈ call.2 := by
  induction hS with
  | roundRobin => exact fun _ _ _ _ _ h => RoundRobinSelector.mem_of_select h
  | weighted => exact fun _ _ _ _ _ h => WeightedRoundRobinSelector.mem_of_select h
  | p2c => exact fun _ _ _ _ _ h => P2CSelector.mem_of_select h
  | consistentHash => exact fun _ _ _ _ _ h => ConsistentHashSelector.mem_of_select h
  | random => exact fun _ _ _ _ _ h => RandomSelector.mem_of_select h
  | tagFilter _ ih => exact fun _ _ _ _ _ h => TagFilterSelector.mem_of_select ih h

/-! ## What is supplied -/

/-- The instances an event brings. -/
def ServiceEvent.instances : ServiceEvent → List ServiceInstance
  | .upsert inst => [inst]
  | .delete _ _ => []
  | .reset all => all

/-- The instances a step of the directory brings in from outside. -/
def DirectoryLabel.supplied : DirectoryLabel → List ServiceInstance
  | .call _ (.listed (.ok instances)) => instances
  | .task _ (.listed (.ok latest)) => latest
  | .task _ (.next (some event)) => event.instances
  | .apply _ event => event.instances
  | _ => []

def ServiceLabel.supplied : ServiceLabel → List ServiceInstance
  | .directory l => l.supplied
  | _ => []

/-- The list a call carries. -/
def CallState.carried : CallState → List ServiceInstance
  | .checking _ (some instances) | .inserting _ instances | .ensuring _ instances
  | .subscribing _ instances _ | .returned (.ok instances) => instances
  | _ => []

namespace ServiceDirectory

variable {A : ServiceInstance → Prop} {d d' : ServiceDirectory} {i k : ℕ}

/-- Every instance the directory holds is in `A`: in its snapshots, in its calls and tasks, on disk
and on the way there and back. -/
structure Within (A : ServiceInstance → Prop) (d : ServiceDirectory) : Prop where
  snapshots : ∀ name list, d.snapshots.lookup name = some list → ∀ inst ∈ list, A inst
  calls : ∀ i, ∀ inst ∈ (d.calls i).carried, A inst
  tasks : ∀ k t event, d.tasks k = some t → t.pending = some event →
    ∀ inst ∈ event.instances, A inst
  disk : ∀ name list, d.disk.load name = some list → ∀ inst ∈ list, A inst
  persists : ∀ p ∈ d.persists, ∀ inst ∈ p.2, A inst
  keeps : d.disk.Keeps A

theorem within_withOptions {diskCache : Bool} {disk : Disk}
    (hkeeps : disk.Keeps A)
    (hdisk : ∀ name list, disk.load name = some list → ∀ inst ∈ list, A inst) :
    Within A (withOptions diskCache disk) := by
  refine ⟨?_, ?_, ?_, hdisk, ?_, hkeeps⟩ <;> simp [withOptions, CallState.carried]

theorem Within.getInstances (h : Within A d) (name : String) :
    ∀ inst ∈ d.getInstances name, A inst := by
  intro inst hinst
  rw [ServiceDirectory.getInstances] at hinst
  rcases hl : d.snapshots.lookup name with - | list
  · simp [hl] at hinst
  · rw [hl] at hinst
    exact h.snapshots name list hl inst hinst

theorem Within.setCall (h : Within A d) {s : CallState} (hs : ∀ inst ∈ s.carried, A inst) :
    Within A (d.setCall i s) := by
  refine { h with calls := fun j => ?_ }
  rw [setCall_calls, Function.update_apply]
  split_ifs
  · exact hs
  · exact h.calls j

theorem Within.setTask (h : Within A d) {t : WatchTask}
    (ht : ∀ event, t.pending = some event → ∀ inst ∈ event.instances, A inst) :
    Within A (d.setTask k t) := by
  refine { h with tasks := fun k' t' event ht' hpending => ?_ }
  rcases update_eq_some.mp ht' with ⟨-, rfl⟩ | ⟨-, hold⟩
  · exact ht event hpending
  · exact h.tasks k' t' event hold hpending

theorem Within.store (h : Within A d) {name : String} {instances : List ServiceInstance}
    (hl : ∀ inst ∈ instances, A inst) : Within A (d.store name instances) := by
  refine { h with snapshots := fun name' list hlist => ?_ }
  rw [store_snapshots, HashMap.lookup_insert] at hlist
  split_ifs at hlist
  · obtain rfl := Option.some.inj hlist
    exact hl
  · exact h.snapshots name' list hlist

theorem Within.persistToDisk (h : Within A d) {name : String} {instances : List ServiceInstance}
    (hl : ∀ inst ∈ instances, A inst) : Within A (d.persistToDisk name instances) := by
  refine { h with persists := fun p hp => ?_ }
  rw [persistToDisk_persists] at hp
  split_ifs at hp
  · rcases List.mem_append.mp hp with hp | hp
    · exact h.persists p hp
    · obtain rfl := List.mem_singleton.mp hp
      exact hl
  · exact h.persists p hp

theorem Within.applyEvent (h : Within A d) (name : String) {event : ServiceEvent}
    (hevent : ∀ inst ∈ event.instances, A inst) : Within A (d.applyEvent name event) := by
  have hlist : ∀ inst ∈ newList (d.getInstances name) event, A inst := by
    intro inst hinst
    rcases mem_newList hinst with hold | rfl | ⟨all, rfl, hall⟩
    · exact h.getInstances name inst hold
    · exact hevent inst (List.mem_singleton.mpr rfl)
    · exact hevent inst hall
  exact (h.store hlist).persistToDisk hlist

/-- A call moves to a state that carries no list. -/
theorem Within.setCall_of_carried_nil (h : Within A d) {s : CallState} (hs : s.carried = []) :
    Within A (d.setCall i s) := h.setCall fun inst hinst => by simp [hs] at hinst

theorem Within.carried (h : Within A d) {s : CallState} (at_ : d.calls i = s) :
    ∀ inst ∈ s.carried, A inst := at_ ▸ h.calls i

/-- A call moves on with the list it carries. -/
theorem Within.advance (h : Within A d) {s s' : CallState} (at_ : d.calls i = s)
    (hs : s'.carried = s.carried) : Within A (d.setCall i s') :=
  h.setCall (hs ▸ h.carried at_)

theorem Within.callMove (h : Within A d) {l : CallLabel}
    (hl : ∀ inst ∈ (DirectoryLabel.call i l).supplied, A inst) (move : CallMove d i l d') :
    Within A d' := by
  cases move with
  | @read name at_ =>
    refine h.setCall fun inst hinst => ?_
    rcases hlist : d.snapshots.lookup name with - | list
    · simp [hlist, CallState.carried] at hinst
    · rw [hlist] at hinst
      exact h.snapshots name list hlist inst hinst
  | fastPath at_ => exact h.advance at_ rfl
  | listed instances at_ => exact (h.persistToDisk hl).setCall hl
  | recovered at_ cached onDisk => exact h.setCall (h.disk _ _ onDisk)
  | insert at_ => exact (h.store (h.carried at_)).advance at_ rfl
  | ensured at_ => exact h.advance at_ rfl
  | enrol at_ => exact Within.advance (d := (d.enrol _).lock i) { h with } at_ rfl
  | subscribed result at_ =>
    refine Within.advance (d := (d.spawnWatch _ _ result.toOption).unlock) ?_ at_ rfl
    exact { h.setTask (t := ⟨_, _, result.toOption, 1, .entering⟩)
      (by simp [WatchTask.pending]) with }
  | unfile at_ =>
    refine Within.setCall_of_carried_nil ?_ rfl
    exact { h with }
  | cancel at_ =>
    refine Within.setCall_of_carried_nil ?_ rfl
    exact { h with }
  | drain at_ =>
    refine Within.setCall_of_carried_nil ?_ rfl
    exact { h with }
  | cancelOne at_ =>
    refine Within.setCall_of_carried_nil ?_ rfl
    exact { h with }
  | clear at_ =>
    exact Within.setCall_of_carried_nil (d := ServiceDirectory.unlock { d with snapshots := ∅ })
      { h with snapshots := fun _ _ hlist => by simp at hlist } rfl
  | _ => exact h.setCall_of_carried_nil rfl

theorem Within.taskMove (h : Within A d) {t : WatchTask} {l : TaskLabel}
    (hl : ∀ inst ∈ (DirectoryLabel.task k l).supplied, A inst) (ht : d.tasks k = some t)
    (move : TaskMove d k t l d') : Within A d' := by
  cases move with
  | event event at_ =>
    refine h.setTask fun event' hpending => ?_
    obtain rfl : event = event' := Option.some.inj hpending
    exact hl
  | listed latest at_ =>
    refine h.setTask fun event' hpending => ?_
    obtain rfl : .reset latest = event' := Option.some.inj hpending
    exact hl
  | @apply stream event at_ =>
    have happlied : Within A (d.applyEvent t.name event) :=
      h.applyEvent _ (h.tasks k t event ht (by rw [WatchTask.pending, at_]))
    exact happlied.setTask (by simp [WatchTask.pending])
  | @reset stream latest at_ =>
    have happlied : Within A (d.applyEvent t.name (.reset latest)) :=
      h.applyEvent _ (h.tasks k t _ ht (by rw [WatchTask.pending, at_]))
    exact happlied.setTask (by simp [WatchTask.pending])
  | _ => exact h.setTask (by simp [WatchTask.pending])

/-- **The directory holds only what it is supplied with.** -/
theorem Within.step (h : Within A d) {l : DirectoryLabel} (hl : ∀ inst ∈ l.supplied, A inst)
    (hstep : d.step l = some d') : Within A d' := by
  cases move_of_step hstep with
  | call move => exact h.callMove hl move
  | drop suspended =>
    refine Within.setCall_of_carried_nil ?_ rfl
    exact { h with }
  | task ht move => exact h.taskMove hl ht move
  | apply name event => exact h.applyEvent name hl
  | @persist n name instances written pending =>
    have hpending : ∀ inst ∈ instances, A inst := h.persists _ (List.mem_of_getElem? pending)
    have hpersists : ∀ p ∈ d.persists.eraseIdx n, ∀ inst ∈ p.2, A inst :=
      fun p hp => h.persists p (List.mem_of_mem_eraseIdx hp)
    cases written with
    | false => exact { h with persists := hpersists }
    | true =>
      refine { h with disk := fun name' list hlist => ?_, persists := hpersists }
      replace hlist : (d.disk.write name instances).load name' = some list := hlist
      rw [Disk.load_write] at hlist
      split_ifs at hlist
      · exact h.keeps.mapM hlist hpending
      · exact h.disk name' list hlist

end ServiceDirectory

/-! ## What a service answers -/

namespace RegistryService

variable {A : ServiceInstance → Prop} {S : Type} [selector : Selector S]
  {svc svc' : RegistryService S}

/-- Every instance the service holds or has answered is in `A`. -/
structure Within (A : ServiceInstance → Prop) (svc : RegistryService S) : Prop where
  directory : svc.directory.Within A
  answers : ∀ ctx inst, (ctx, some inst) ∈ svc.answers → A inst

/-- An answer is one of the instances loaded. -/
theorem mem_of_selectLoaded (hS : OfCrate S selector) {clock : Clock} {ctx : SelectContext}
    {instances : List ServiceInstance} {inst : ServiceInstance} {sel : S}
    (h : svc.selectLoaded clock ctx instances = some (some inst, sel)) : inst ∈ instances := by
  rw [selectLoaded] at h
  split_ifs at h
  · simp at h
  · exact hS.mem_of_select _ _ _ _ _ h

/-- **A step answers only what the service holds.** -/
theorem Within.step (h : Within A svc) (hS : OfCrate S selector) {l : ServiceLabel}
    (hl : ∀ inst ∈ l.supplied, A inst) (hstep : svc.step l = some svc') : Within A svc' := by
  cases l with
  | directory l =>
    obtain ⟨directory, hdir, rfl⟩ := Option.map_eq_some_iff.mp hstep
    exact ⟨h.directory.step hl hdir, h.answers⟩
  | request i ctx =>
    obtain ⟨directory, hdir, rfl⟩ := Option.map_eq_some_iff.mp hstep
    exact ⟨h.directory.step (by simp [DirectoryLabel.supplied]) hdir, h.answers⟩
  | respond i clock =>
    simp only [RegistryService.step] at hstep
    split at hstep
    · next ctx instances _ hreturned =>
      obtain ⟨⟨chosen, sel⟩, hsel, rfl⟩ := Option.map_eq_some_iff.mp hstep
      refine ⟨h.directory, fun ctx' inst hmem => ?_⟩
      rcases List.mem_append.mp hmem with hmem | hmem
      · exact h.answers ctx' inst hmem
      · obtain ⟨rfl, rfl⟩ := Prod.mk.inj (List.mem_singleton.mp hmem)
        exact h.directory.carried hreturned inst (mem_of_selectLoaded hS hsel)
    · cases hstep

/-- **What a service answers was supplied to it**, or was on disk at the start. -/
theorem answers_supplied (hS : OfCrate S selector) {sel : S} {diskCache : Bool}
    {disk : Disk} {w : List ServiceLabel} (hkeeps : disk.Keeps A)
    (hdisk : ∀ name list, disk.load name = some list → ∀ inst ∈ list, A inst)
    (hw : ∀ l ∈ w, ∀ inst ∈ l.supplied, A inst)
    (hrun : run step (fromParts (.withOptions diskCache disk) sel) w = some svc) :
    ∀ ctx inst, (ctx, some inst) ∈ svc.answers → A inst := by
  have hinit : Within A (fromParts (.withOptions diskCache disk) sel) :=
    ⟨ServiceDirectory.within_withOptions hkeeps hdisk, by simp [fromParts]⟩
  exact (invariant_run (fun _ _ _ h hl hstep => h.step hS hl hstep) hinit
    (eachStep_of_forall_mem hw) hrun).answers

/-- A selection over a fresh directory, whose listing is the one instance `inst`. -/
def onlyListed (inst : ServiceInstance) : List ServiceLabel :=
  [.request 0 (.new inst.name), .directory (.call 0 .read), .directory (.call 0 .lock),
    .directory (.call 0 (.listed (.ok [inst]))), .directory (.call 0 .insert),
    .directory (.call 0 .lock), .directory (.call 0 (.subscribed (.ok 0))),
    .respond 0 fun _ => 0]

theorem run_onlyListed (inst : ServiceInstance) :
    ∃ svc, run step (fromParts (.withOptions false ∅) RoundRobinSelector.new) (onlyListed inst)
        = some svc ∧ (.new inst.name, some inst) ∈ svc.answers := by
  refine ⟨_, rfl, ?_⟩
  exact List.mem_singleton.mpr rfl

/-- **No dead instance gets traffic, exactly.**  Over the instances in `A`, no run of a service
answers a disabled or unhealthy one, if and only if `A` has none: nothing between the registry and
the answer filters.  The JSON text of an instance may lose digits of its weight, but no flag. -/
theorem never_dead_iff (A : ServiceInstance → Prop) :
    (∀ (S : Type) [selector : Selector S], OfCrate S selector →
      ∀ (sel : S) (diskCache : Bool) (disk : Disk)
        (w : List ServiceLabel) (svc : RegistryService S),
        (∀ inst inst', disk.reread inst = some inst' →
          inst'.enabled = inst.enabled ∧ inst'.healthy = inst.healthy) →
        (∀ name list, disk.load name = some list → ∀ inst ∈ list, A inst) →
        (∀ l ∈ w, ∀ inst ∈ l.supplied, A inst) →
        run step (fromParts (.withOptions diskCache disk) sel) w = some svc →
        ∀ ctx inst, (ctx, some inst) ∈ svc.answers → inst.enabled ∧ inst.healthy)
      ↔ ∀ inst, A inst → inst.enabled ∧ inst.healthy := by
  constructor
  · intro h inst hinst
    obtain ⟨svc, hrun, hanswer⟩ := run_onlyListed inst
    refine h RoundRobinSelector .roundRobin _ false ∅ _ svc ?_ (fun _ _ hload => ?_) ?_ hrun _ inst
      hanswer
    · rintro inst' _ ⟨⟩
      exact ⟨rfl, rfl⟩
    · cases hload
    · simp [onlyListed, ServiceLabel.supplied, DirectoryLabel.supplied, hinst]
  · intro h S selector hS sel diskCache disk w svc hflags hdisk hw hrun ctx inst hanswer
    have hkeeps : disk.Keeps fun inst => inst.enabled ∧ inst.healthy := by
      intro inst inst' hread hinst
      obtain ⟨henabled, hhealthy⟩ := hflags inst inst' hread
      rwa [henabled, hhealthy]
    exact answers_supplied hS hkeeps (fun name list hlist inst hinst => h inst
      (hdisk name list hlist inst hinst)) (fun l hl inst hinst => h inst (hw l hl inst hinst)) hrun
      ctx inst hanswer

/-- **A dead instance that gets traffic.**  The registry lists one instance, marked unhealthy. -/
theorem unhealthy_selected :
    ¬ ∀ (sel : RoundRobinSelector) (w : List ServiceLabel)
        (svc : RegistryService RoundRobinSelector),
      run step (fromParts (.withOptions false ∅) sel) w = some svc →
      ∀ ctx inst, (ctx, some inst) ∈ svc.answers → inst.enabled ∧ inst.healthy := by
  intro h
  have hdead := h .new (onlyListed { ServiceInstance.simple "order-svc" "127.0.0.1" 8080 with
    healthy := false }) _ rfl _ _ (List.mem_singleton.mpr rfl)
  exact absurd hdead.2 (by decide)

end RegistryService

end PecsRegistry
