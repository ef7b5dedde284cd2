import PecsRegistry.Provider.Etcd.Cluster
import PecsRegistry.Provider.Etcd.Freight
import PecsRegistry.Provider.Etcd.Tenants
import PecsRegistry.Service.Traffic

/-!
# Service/Registered — what is selected has been registered

The way of an instance to the answer of a selection, over an etcd registry: a `register`, etcd, a
listing or a watch with its forwarding task and channel, the directory with its disk, a load, a
selector.  Reconnects, failures, dropped calls, `unwatch` and `shutdown` may come at any time.
**Nothing is made up on the way** (`selected_registered`): an instance that is answered was handed
to a `register` of some process, or was on disk at the start, or was applied by hand.  **Nor does it
come from another group** (`selected_in_group`), where namespaces and groups have no slash.  Each
text on the way, in etcd or on disk, may read back with another weight.
-/

namespace PecsRegistry

open Transition LeaseStore Registrations

variable {configs : ℕ → RegistryConfig} {reread : ServiceInstance → ServiceInstance}
  {config : RegistryConfig} {P : ℕ → ServiceInstance → Prop} {A : ServiceInstance → Prop}

/-! ## The watches -/

/-- What etcd reports to be put is what an instance reads back as that was registered, with `P`, by
a process whose key it is under. -/
def PutBy (configs : ℕ → RegistryConfig) (reread : ServiceInstance → ServiceInstance)
    (P : ℕ → ServiceInstance → Prop) : EtcdEvent → Prop
  | .put key (some value) => ∃ j inst, P j inst ∧ (configs j).active
      ∧ key = (configs j).keyOf inst ∧ value = reread inst
  | _ => True

/-- What is sent on has only instances in `A`. -/
def HasOnly (A : ServiceInstance → Prop) (event : ServiceEvent) : Prop :=
  ∀ inst ∈ event.instances, A inst

/-- Whatever is registered with `P` and shows up in a service of the client is in `A`, as it reads
back. -/
def ShowsOnly (configs : ℕ → RegistryConfig) (reread : ServiceInstance → ServiceInstance)
    (config : RegistryConfig) (P : ℕ → ServiceInstance → Prop) (A : ServiceInstance → Prop) :
    Prop :=
  ∀ j inst serviceName, P j inst → (configs j).active →
    (config.makeServicePrefix serviceName).toList <+: ((configs j).keyOf inst).toList →
      A (reread inst)

theorem ShowsOnly.forwards (h : ShowsOnly configs reread config P A) :
    Forwards config (PutBy configs reread P) (HasOnly A) := by
  intro service event sent hevent hsent
  cases event with
  | put key value =>
    rw [RegistryConfig.watchEvent] at hsent
    split_ifs at hsent with hunder
    obtain ⟨value, rfl, rfl⟩ := Option.map_eq_some_iff.mp hsent
    obtain ⟨j, inst, hP, hactive, rfl, rfl⟩ := hevent
    intro inst' hinst'
    obtain rfl := List.mem_singleton.mp hinst'
    exact h j inst service hP hactive hunder
  | delete key =>
    rw [RegistryConfig.watchEvent] at hsent
    split_ifs at hsent
    obtain rfl := Option.some.inj hsent
    exact fun inst hinst => absurd hinst List.not_mem_nil

/-- **What a query is answered with** is what a listing finds in etcd, or what a watch carries. -/
theorem EtcdHub.supplied {E : EtcdEvent → Prop} {s s' : Deployment EtcdHub} {l : DirectoryLabel}
    (hcarries : ∀ r, s.registry.Carries E (HasOnly A) r)
    (hlists : ∀ name, ∀ inst ∈ listInstances s.registry.watches.config s.registry.etcd name,
      A inst)
    (happly : ∀ name event, l = .apply name event → ∀ inst ∈ event.instances, A inst)
    (hstep : provider.step s (.inl l) = some s') : ∀ inst ∈ l.supplied, A inst := by
  obtain ⟨d', reg'⟩ := s'
  obtain ⟨hreply, hdir⟩ := Provider.step_inl_eq_some.mp hstep
  have hlisted : ∀ name list, s.directory.query l = some (.list name (.ok list)) →
      ∀ inst ∈ list, A inst := by
    intro name list hquery inst hinst
    rw [hquery] at hreply
    obtain ⟨-, rfl⟩ := listed_spec hreply
    exact hlists name inst hinst
  cases ServiceDirectory.move_of_step hdir with
  | @call i _ _ move =>
    cases move with
    | @listed name instances at_ =>
      exact hlisted name instances (by rw [ServiceDirectory.query, at_]; rfl)
    | _ => exact fun inst hinst => absurd hinst List.not_mem_nil
  | @task k t _ _ ht move =>
    cases move with
    | listed latest at_ =>
      exact hlisted t.name latest (by rw [ServiceDirectory.query, ht]; rfl)
    | @event stream event at_ =>
      have hquery : s.directory.query (.task k (.next (some event)))
          = some (.next stream (some event)) := by
        rw [ServiceDirectory.query, ht, Option.bind_some, WatchTask.query, at_]
      rw [hquery] at hreply
      exact (hcarries stream).next hreply
    | _ => exact fun inst hinst => absurd hinst List.not_mem_nil
  | apply name event => exact happly name event rfl
  | drop | persist => exact fun inst hinst => absurd hinst List.not_mem_nil

/-! ## The cluster -/

namespace Cluster

variable {C C' : Cluster} {l : ClusterLabel} {w : List ClusterLabel}
  {disk : Disk}

/-- What is in etcd and on its way to the client was registered with `P`, and what the client holds
is in `A`. -/
structure Within (configs : ℕ → RegistryConfig) (reread : ServiceInstance → ServiceInstance)
    (config : RegistryConfig) (P : ℕ → ServiceInstance → Prop) (A : ServiceInstance → Prop)
    (C : Cluster) : Prop where
  sourced : C.fleet.Sourced configs reread .empty P
  config_eq : C.client.registry.watches.config = config
  carries : ∀ r, C.client.registry.Carries (PutBy configs reread P) (HasOnly A) r
  directory : C.client.directory.Within A

/-- A process registers with `P`, and what is applied by hand is in `A`. -/
def Brings (P : ℕ → ServiceInstance → Prop) (A : ServiceInstance → Prop) (l : ClusterLabel) :
    Prop :=
  Registers P l
    ∧ ∀ name event, l = .directory (.apply name event) → ∀ inst ∈ event.instances, A inst

/-- What the client may list is in `A`. -/
theorem Within.listed (hA : ShowsOnly configs reread config P A)
    (h : C.Within configs reread config P A)
    (name : String) : ∀ inst ∈ listInstances C.client.registry.watches.config
      C.client.registry.etcd name, A inst := by
  rw [h.config_eq]
  intro inst hinst
  obtain ⟨-, key, id, hentry, hunder⟩ := entry_of_listed hinst
  rcases h.sourced.entries key inst id hentry with hstart | ⟨j, inst, hP, hactive, rfl, rfl⟩
  · cases hstart
  · exact hA j inst name hP hactive hunder

/-- **A step brings in nothing else.** -/
theorem Within.step (hA : ShowsOnly configs reread config P A)
    (h : C.Within configs reread config P A)
    (hl : Brings P A l) (hstep : C.step l = some C') : C'.Within configs reread config P A := by
  have hsourced := sourced_step h.sourced hl.1 hstep
  have hclient := client_of_step hstep
  cases l with
  | process j l report =>
    cases report with
    | none =>
      have hsame := client_of_silent hstep
      exact ⟨hsourced, hsame ▸ h.config_eq, hsame ▸ h.carries, hsame ▸ h.directory⟩
    | some op =>
      obtain ⟨hact, hdirectory⟩ := apply_of_process hstep
      refine ⟨hsourced, (EtcdHub.config_of_act hact).trans h.config_eq,
        fun r => (h.carries r).store ?_ (fun _ => trivial) hact, hdirectory ▸ h.directory⟩
      rintro key value id rfl
      rcases hsourced.entries key value id (lookup_of_put hstep) with hstart | hput
      · cases hstart
      · exact hput
  | directory l =>
    rw [ClusterLabel.seen, run_singleton] at hclient
    have hprovider := EtcdHub.provider_of_step hclient
    have hsupplied := EtcdHub.supplied h.carries (h.listed hA)
      (fun name event heq => hl.2 name event (congrArg _ heq)) hprovider
    have hdirectory := h.directory.step hsupplied (Provider.step_inl_eq_some.mp hprovider).2
    rcases Provider.registry_of_step hprovider with hsame | ⟨q, hanswer⟩
    · exact ⟨hsourced, hsame ▸ h.config_eq, hsame ▸ h.carries, hdirectory⟩
    · exact ⟨hsourced, (EtcdHub.config_of_answer hanswer).trans h.config_eq,
        fun r => (h.carries r).answer hanswer, hdirectory⟩
  | forwarder f owned l =>
    rw [ClusterLabel.seen, run_singleton] at hclient
    obtain ⟨hact, hdirectory⟩ := Provider.step_inr_eq_some.mp (EtcdHub.provider_of_step hclient)
    replace hact : C.client.registry.act (.forwarder f owned l) = some C'.client.registry := hact
    have hforwards := hA.forwards
    rw [← h.config_eq] at hforwards
    exact ⟨hsourced, (EtcdHub.config_of_act hact).trans h.config_eq,
      fun r => (h.carries r).forward hforwards hact, hdirectory ▸ h.directory⟩

/-- The instance was handed to a `register` of process `j`. -/
def RegisteredBy (w : List ClusterLabel) (j : ℕ) (inst : ServiceInstance) : Prop :=
  ∃ i report, .process j (.call i (.register inst)) report ∈ w

/-- At the end of a run all this holds, if `A` has what the client finds of its run, on its disk,
and by hand. -/
theorem within_of_run {diskCache : Bool}
    (hA : ShowsOnly configs reread config (RegisteredBy w) A) (hkeeps : disk.Keeps A)
    (hdisk : ∀ name list, disk.load name = some list → ∀ inst ∈ list, A inst)
    (hhand : ∀ name event, .directory (.apply name event) ∈ w → ∀ inst ∈ event.instances, A inst)
    (hrun : run step (new configs reread config diskCache disk) w = some C) :
    C.Within configs reread config (RegisteredBy w) A := by
  have hstart : (new configs reread config diskCache disk).Within configs reread config
      (RegisteredBy w) A :=
    { sourced := Fleet.sourced_new
      config_eq := rfl
      carries := fun _ => ⟨fun _ hevent => absurd hevent List.not_mem_nil,
        fun _ hfw => by simp [new] at hfw⟩
      directory := ServiceDirectory.within_withOptions hkeeps hdisk }
  have hbrings : ∀ l ∈ w, Brings (RegisteredBy w) A l := by
    intro l hl
    refine ⟨?_, fun name event heq => hhand name event (heq ▸ hl)⟩
    unfold Registers
    split
    · exact ⟨_, _, hl⟩
    · trivial
  exact invariant_run (C := fun _ l => Brings (RegisteredBy w) A l)
    (fun _ _ _ h hl hstep => h.step hA hl hstep) hstart (eachStep_of_forall_mem hbrings) hrun

/-- **What the client shows and selects** is in `A`. -/
theorem Within.selects (h : C.Within configs reread config P A) :
    (∀ name, ∀ inst ∈ C.client.directory.getInstances name, A inst)
    ∧ ∀ i instances, C.client.directory.calls i = .returned (.ok instances) →
      ∀ (S : Type) [selector : Selector S], OfCrate S selector →
        ∀ sel sel' clock ctx inst, selector.select sel clock (ctx, instances)
          = some (some inst, sel') → A inst := by
  refine ⟨h.directory.getInstances, ?_⟩
  intro i instances hreturned S selector hS sel sel' clock ctx inst hselect
  exact h.directory.carried hreturned inst (hS.mem_of_select sel sel' clock _ inst hselect)

/-- But for its weight, the instance was handed to a `register` of a process in `on`, was on disk at
the start, or was applied by hand. -/
def Known (on : ℕ → Prop) (disk : Disk) (w : List ClusterLabel) (inst : ServiceInstance) : Prop :=
  ∃ source : ServiceInstance, source.ButWeight inst
    ∧ ((∃ j i report, .process j (.call i (.register source)) report ∈ w ∧ on j)
      ∨ (∃ name list, disk.load name = some list ∧ source ∈ list)
      ∨ ∃ name event, .directory (.apply name event) ∈ w ∧ source ∈ event.instances)

theorem Known.butWeight {on : ℕ → Prop} {inst inst' : ServiceInstance} (h : Known on disk w inst)
    (hbut : inst.ButWeight inst') : Known on disk w inst' := by
  obtain ⟨source, hsource, horigin⟩ := h
  exact ⟨source, hsource.trans hbut, horigin⟩

/-- At the end of a run the client has only what is known, if what shows up in its services is
registered by processes in `on`. -/
theorem within_known {diskCache : Bool} {on : ℕ → Prop}
    (hreread : ∀ inst : ServiceInstance, inst.ButWeight (reread inst)) (hdisk : disk.ButWeight)
    (hon : ∀ j (inst : ServiceInstance) serviceName, (configs j).active →
      (config.makeServicePrefix serviceName).toList <+: ((configs j).keyOf inst).toList → on j)
    (hrun : run step (new configs reread config diskCache disk) w = some C) :
    C.Within configs reread config (RegisteredBy w) (Known on disk w) := by
  refine within_of_run ?_ (fun inst inst' hread hknown => hknown.butWeight (hdisk _ _ hread))
    ?_ ?_ hrun
  · rintro j inst serviceName ⟨i, report, hmem⟩ hactive hunder
    exact ⟨inst, hreread inst, .inl ⟨j, i, report, hmem, hon j inst serviceName hactive hunder⟩⟩
  · exact fun name list hlist inst hinst =>
      ⟨inst, .refl inst, .inr (.inl ⟨name, list, hlist, hinst⟩)⟩
  · exact fun name event hmem inst hinst =>
      ⟨inst, .refl inst, .inr (.inr ⟨name, event, hmem, hinst⟩)⟩

/-- **What is selected has been registered.**  However the processes, etcd and the client
interleave, and whatever fails, is dropped or starts over on the way, every instance in a snapshot
of the client, and every instance that a selector answers from a load of the client, is, but for its
weight, one that was handed to a `register` of a process that is switched on, or was on disk at the
start, or was applied by hand. -/
theorem selected_registered (diskCache : Bool) (disk : Disk) (hdisk : disk.ButWeight)
    (hreread : ∀ inst : ServiceInstance, inst.ButWeight (reread inst))
    (hrun : run step (new configs reread config diskCache disk) w = some C) :
    (∀ name, ∀ inst ∈ C.client.directory.getInstances name,
      Known (fun j => (configs j).active) disk w inst)
    ∧ ∀ i instances, C.client.directory.calls i = .returned (.ok instances) →
      ∀ (S : Type) [selector : Selector S], OfCrate S selector →
        ∀ sel sel' clock ctx inst, selector.select sel clock (ctx, instances)
          = some (some inst, sel') → Known (fun j => (configs j).active) disk w inst :=
  (within_known hreread hdisk (fun _ _ _ hactive _ => hactive) hrun).selects

theorem butWeight_empty : (∅ : Disk).ButWeight := by
  intro inst inst' hread
  obtain rfl := Option.some.inj hread
  exact .refl inst

/-- `selected_registered` for the client that two processes have joined. -/
theorem selected_registered_joined :
    Known (fun _ => RegistryConfig.default.active) ∅ (subscribing ++ (meeting ++ delivering))
      Fleet.order := by
  have hjoined : Fleet.order ∈ joined.client.directory.getInstances "order-svc" := by
    decide +kernel
  have hrun : run step start (subscribing ++ (meeting ++ delivering)) = some joined :=
    run_append_eq_some.mpr ⟨met, (Option.some_get _).symm,
      run_append_eq_some.mpr ⟨putOrder, (Option.some_get _).symm, (Option.some_get _).symm⟩⟩
  exact (selected_registered false ∅ butWeight_empty .refl hrun).1 "order-svc" Fleet.order hjoined

/-- The process is of the client's namespace and group. -/
def InGroup (configs : ℕ → RegistryConfig) (config : RegistryConfig) (j : ℕ) : Prop :=
  (configs j).namespace = config.namespace ∧ (configs j).group = config.group

/-- **What is selected is of the client's group.**  Where namespaces and groups have no slash, and
whatever the services, ids, processes and failures are, every instance in a snapshot of the client,
and every instance that a selector answers from a load of the client, is, but for its weight, one
that was handed to a `register` of a process of the client's namespace and group, or was on disk at
the start, or was applied by hand. -/
theorem selected_in_group (diskCache : Bool) (disk : Disk) (hdisk : disk.ButWeight)
    (hreread : ∀ inst : ServiceInstance, inst.ButWeight (reread inst))
    (hconfig : SlashFree config.namespace ∧ SlashFree config.group)
    (hconfigs : ∀ j, SlashFree (configs j).namespace ∧ SlashFree (configs j).group)
    (hrun : run step (new configs reread config diskCache disk) w = some C) :
    (∀ name, ∀ inst ∈ C.client.directory.getInstances name,
      Known (InGroup configs config) disk w inst)
    ∧ ∀ i instances, C.client.directory.calls i = .returned (.ok instances) →
      ∀ (S : Type) [selector : Selector S], OfCrate S selector →
        ∀ sel sel' clock ctx inst, selector.select sel clock (ctx, instances)
          = some (some inst, sel') → Known (InGroup configs config) disk w inst :=
  (within_known hreread hdisk
    (fun j _ _ _ hunder => eq_of_prefix hconfig (hconfigs j) hunder) hrun).selects

/-- `selected_in_group` for the client that two processes of its group have joined. -/
theorem selected_in_group_joined :
    Known (InGroup (fun _ => .default) .default) ∅ (subscribing ++ (meeting ++ delivering))
      Fleet.order := by
  have hjoined : Fleet.order ∈ joined.client.directory.getInstances "order-svc" := by
    decide +kernel
  have hrun : run step start (subscribing ++ (meeting ++ delivering)) = some joined :=
    run_append_eq_some.mpr ⟨met, (Option.some_get _).symm,
      run_append_eq_some.mpr ⟨putOrder, (Option.some_get _).symm, (Option.some_get _).symm⟩⟩
  exact (selected_in_group false ∅ butWeight_empty .refl (by decide) (fun _ => by decide) hrun).1
    "order-svc" Fleet.order hjoined

end Cluster

end PecsRegistry
