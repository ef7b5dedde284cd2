import PecsRegistry.Machinery.Paths
import PecsRegistry.Provider.Etcd.Fleet

/-!
# Provider/Etcd/Tenants — namespaces and groups over one etcd

A namespace and a group are a directory of etcd, and a service a directory in it.  Neither escapes
its slashes, so a group may lie inside a service of another: with `dev` and `dev/order-svc` for
groups, whatever the second one registers is an instance of `order-svc` to the first.  **That is the
only way** the registries of one etcd hear of each other's instances (`tenants_apart_iff`), and
without slashes in namespaces and groups it is none (`tenants_apart`).
-/

namespace PecsRegistry

open Transition Registrations

variable {config config' : RegistryConfig} {serviceName : String} {inst : ServiceInstance}

/-! ## Groups as directories -/

/-- The directory of a group, up to its slash. -/
def groupDir (config : RegistryConfig) : List Char :=
  '/' :: ((trimSlashes config.namespace).toList ++ '/' :: (trimSlashes config.group).toList)

theorem groupPath_eq (config : RegistryConfig) : groupPath config = groupDir config ++ ['/'] := by
  simp [groupPath, groupDir]

/-- **Where the instances of a group show up**: in its own listings of their services, and in those
of another group's service if the whole group lies in that service. -/
theorem prefix_keyOf_iff (config config' : RegistryConfig) (hservice : SlashFree serviceName)
    (hname : SlashFree inst.name) (hid : SlashFree inst.serviceId) :
    (config.makeServicePrefix serviceName).toList <+: (config'.keyOf inst).toList
      ↔ (groupPath config' = groupPath config ∧ inst.name = serviceName)
        ∨ (config.makeServicePrefix serviceName).toList <+: groupPath config' := by
  have hfolder : (config.makeServicePrefix serviceName).toList
      = groupDir config ++ '/' :: (serviceName.toList ++ ['/']) := by
    rw [toList_makeServicePrefix, groupPath_eq, pathPrefix, hservice.trimSlashes_eq,
      List.append_assoc, List.singleton_append]
  have hkey : (config'.keyOf inst).toList
      = groupDir config' ++ '/' :: (inst.name.toList ++ '/' :: inst.serviceId.toList) := by
    rw [toList_keyOf, groupPath_eq, pathOf, hname.trimSlashes_eq, hid.trimSlashes_eq,
      List.append_assoc, List.singleton_append]
  rw [hfolder, hkey, Paths.prefix_entry_iff hservice hname hid, groupPath_eq, groupPath_eq,
    List.append_left_inj, String.toList_inj, eq_comm (a := groupDir config),
    eq_comm (a := serviceName)]

/-- Without slashes an instance shows up in its own namespace and group only, whatever the services
and ids are. -/
theorem eq_of_prefix (hconfig : SlashFree config.namespace ∧ SlashFree config.group)
    (hconfig' : SlashFree config'.namespace ∧ SlashFree config'.group)
    (h : (config.makeServicePrefix serviceName).toList <+: (config'.keyOf inst).toList) :
    config'.namespace = config.namespace ∧ config'.group = config.group := by
  obtain ⟨t, ht⟩ := h
  rw [toList_makeServicePrefix, toList_keyOf, groupPath_eq, groupPath_eq, groupDir, groupDir,
    hconfig.1.trimSlashes_eq, hconfig.2.trimSlashes_eq, hconfig'.1.trimSlashes_eq,
    hconfig'.2.trimSlashes_eq] at ht
  simp only [List.append_assoc, List.cons_append, List.nil_append] at ht
  obtain ⟨hnamespaces, hrest⟩ := Paths.cons_inj_first hconfig.1 hconfig'.1 (List.cons.inj ht).2
  obtain ⟨hgroups, -⟩ := Paths.cons_inj_first hconfig.2 hconfig'.2 hrest
  exact ⟨(String.toList_inj.mp hnamespaces).symm, (String.toList_inj.mp hgroups).symm⟩

/-- Without slashes a group's directory is that of its namespace and name alone. -/
theorem eq_of_groupPath (hnamespace : SlashFree config.namespace)
    (hnamespace' : SlashFree config'.namespace) (hgroup : SlashFree config.group)
    (hgroup' : SlashFree config'.group) (h : groupPath config' = groupPath config) :
    config'.namespace = config.namespace ∧ config'.group = config.group := by
  rw [groupPath_eq, groupPath_eq, List.append_left_inj, groupDir, groupDir,
    hnamespace.trimSlashes_eq, hnamespace'.trimSlashes_eq, hgroup.trimSlashes_eq,
    hgroup'.trimSlashes_eq] at h
  obtain ⟨hnamespaces, hgroups⟩ :=
    (Paths.append_cons_inj hgroup' hgroup).mp (List.cons.inj h).2
  exact ⟨String.toList_inj.mp hnamespaces, String.toList_inj.mp hgroups⟩

/-- …and lies in no service. -/
theorem not_prefix_groupPath (hnamespace : SlashFree config'.namespace)
    (hgroup : SlashFree config'.group) :
    ¬ (config.makeServicePrefix serviceName).toList <+: groupPath config' := by
  intro h
  -- there are four slashes in the prefix, and three in the path
  have hcount := h.sublist.count_le '/'
  rw [toList_makeServicePrefix, groupPath_eq, groupPath_eq, groupDir, groupDir, pathPrefix,
    hnamespace.trimSlashes_eq, hgroup.trimSlashes_eq] at hcount
  simp only [List.count_append, List.count_cons_self, List.count_nil,
    List.count_eq_zero_of_not_mem hnamespace, List.count_eq_zero_of_not_mem hgroup] at hcount
  omega

namespace Fleet

/-! ## Who hears of whom -/

/-- The names and ids that are registered have no slash. -/
def RegistersPlain : ℕ × EtcdLabel → Prop
  | (_, .call _ (.register inst)) => SlashFree inst.name ∧ SlashFree inst.serviceId
  | _ => True

variable {configs : ℕ → RegistryConfig} {reread : ServiceInstance → ServiceInstance}
  {w : List (ℕ × EtcdLabel)} {F : Fleet} {value : ServiceInstance}

/-- **What is listed** was registered in the group, for the service, or by a process whose whole
group lies in the service. -/
theorem listed_from (hservice : SlashFree serviceName) (hw : ∀ l ∈ w, RegistersPlain l)
    (hrun : run step (new configs reread .empty) w = some F)
    (hvalue : value ∈ listInstances config F.etcd serviceName) :
    config.active ∧ ∃ j i inst, (j, EtcdLabel.call i (.register inst)) ∈ w ∧ value = reread inst
      ∧ (configs j).active ∧ ((groupPath (configs j) = groupPath config ∧ inst.name = serviceName)
        ∨ (config.makeServicePrefix serviceName).toList <+: groupPath (configs j)) := by
  obtain ⟨hlists, key, id, hentry, hfolder⟩ := entry_of_listed hvalue
  rcases (sourced_of_run hrun).entries key value id hentry with
    hstart | ⟨j, inst, ⟨i, hi⟩, hactive, rfl, hread⟩
  · cases hstart
  · obtain ⟨hname, hid⟩ := hw _ hi
    exact ⟨hlists, j, i, inst, hi, hread, hactive,
      (prefix_keyOf_iff config _ hservice hname hid).mp hfolder⟩

/-- What a registry does on its own, it does in a fleet. -/
theorem run_alone {j : ℕ} {r : EtcdRegistry} {u : List EtcdLabel}
    (hrun : run EtcdRegistry.step (F.registry j) u = some r) :
    ∃ F', run step F (u.map (j, ·)) = some F' ∧ F'.registry j = r := by
  induction u generalizing F with
  | nil => exact ⟨F, rfl, Option.some.inj hrun⟩
  | cons l u ih =>
    obtain ⟨r₁, hstep, hrest⟩ := run_cons_eq_some.mp hrun
    have hfirst : F.step (j, l) = some (F.setRegistry j r₁) :=
      Option.map_eq_some_iff.mpr ⟨r₁, hstep, rfl⟩
    rw [← registry_setRegistry_self F j r₁] at hrest
    obtain ⟨F', hrun', hr⟩ := ih hrest
    exact ⟨F', run_cons_eq_some.mpr ⟨_, hfirst, hrun'⟩, hr⟩

/-- A registry registers an instance, as far as its put. -/
def firstPut (inst : ServiceInstance) : List EtcdLabel :=
  [.call 0 (.register inst), .call 0 .cancel, .call 0 .arm, .task 0 .check,
    .task 0 (.connected true), .task 0 (.granted 0 true), .task 0 (.put true)]

/-- A process that is switched on can put whatever it registers. -/
theorem exists_run_firstPut (reread : ServiceInstance → ServiceInstance) {j : ℕ}
    (hactive : (configs j).active) (inst : ServiceInstance) :
    ∃ F, run step (new configs reread .empty) ((firstPut inst).map (j, ·)) = some F
      ∧ F.etcd.entries.lookup ((configs j).keyOf inst) = some (reread inst, 0) := by
  have hregister : (EtcdRegistry.new (configs j) reread .empty).step (.call 0 (.register inst))
      = some ((EtcdRegistry.new (configs j) reread .empty).setCall 0 (.replacing inst)) := by
    rw [EtcdRegistry.step, EtcdRegistry.new, EtcdRegistry.callStep, if_pos hactive]
  obtain ⟨F, hrun, hF⟩ := run_alone (F := new configs reread .empty) (j := j) (u := firstPut inst)
    (run_cons_eq_some.mpr ⟨_, hregister, rfl⟩)
  refine ⟨F, hrun, ?_⟩
  have hetcd : F.etcd = (F.registry j).etcd := rfl
  rw [hetcd, hF]
  exact Finmap.lookup_insert _

/-- An instance of some other service. -/
def stray (serviceName : String) : ServiceInstance :=
  .new "stray" "pecs" "dev" (serviceName ++ "-canary") none none

theorem slashFree_stray (hservice : SlashFree serviceName) :
    SlashFree (stray serviceName).name ∧ SlashFree (stray serviceName).serviceId := by
  have hname : '/' ∉ serviceName.toList ++ "-canary".toList :=
    List.not_mem_append hservice (by decide)
  rw [← String.toList_append] at hname
  have hid : SlashFree "stray" := by decide
  exact ⟨hname, hid⟩

/-- **When a listing stays in its group.**  Where texts read back as they were, but for weights, and
whatever the processes do, a service is listed with instances of that service only, each registered
under the directory of the group, if and only if no process that is switched on has a group that
lies in the service. -/
theorem tenants_apart_iff (configs : ℕ → RegistryConfig)
    (reread : ServiceInstance → ServiceInstance)
    (hreread : ∀ inst : ServiceInstance, inst.ButWeight (reread inst))
    (config : RegistryConfig) (hservice : SlashFree serviceName) :
    (∀ w F, (∀ l ∈ w, RegistersPlain l) → run step (new configs reread .empty) w = some F →
      ∀ value ∈ listInstances config F.etcd serviceName, value.name = serviceName
        ∧ ∃ j i inst, (j, EtcdLabel.call i (.register inst)) ∈ w ∧ value = reread inst
          ∧ groupPath (configs j) = groupPath config)
      ↔ (config.active → ∀ j, (configs j).active →
        ¬ (config.makeServicePrefix serviceName).toList <+: groupPath (configs j)) := by
  constructor
  · intro hapart hlists j hactive hbelow
    obtain ⟨F, hrun, hentry⟩ := exists_run_firstPut reread hactive (stray serviceName)
    have hw : ∀ l ∈ (firstPut (stray serviceName)).map (j, ·), RegistersPlain l := by
      simp [firstPut, RegistersPlain, slashFree_stray hservice]
    have hlisted : reread (stray serviceName) ∈ listInstances config F.etcd serviceName := by
      rw [listInstances, if_pos hlists, LeaseStore.mem_range]
      refine ⟨(configs j).keyOf (stray serviceName), decide_eq_true ?_, ?_⟩
      · rw [toList_keyOf]
        exact hbelow.trans (List.prefix_append _ _)
      · exact Option.map_eq_some_iff.mpr ⟨_, hentry, rfl⟩
    have hname := (hapart _ F hw hrun _ hlisted).1
    obtain ⟨weight, heq⟩ := hreread (stray serviceName)
    rw [heq] at hname
    exact absurd (congrArg String.length hname) (by simp [stray, ServiceInstance.new])
  · intro hapart w F hw hrun value hvalue
    obtain ⟨hlists, j, i, inst, hi, rfl, hactive, ⟨hgroup, hname⟩ | hbelow⟩ :=
      listed_from hservice hw hrun hvalue
    · obtain ⟨weight, heq⟩ := hreread inst
      exact ⟨by rw [heq]; exact hname, j, i, inst, hi, rfl, hgroup⟩
    · exact absurd hbelow (hapart hlists j hactive)

/-- A group inside a service of the default one. -/
def nested : RegistryConfig := { RegistryConfig.default with group := "dev/order-svc" }

/-- `tenants_apart_iff` for a group that lies in a service: it is heard of there. -/
theorem tenants_apart_iff_nested :
    ¬ ∀ w F, (∀ l ∈ w, RegistersPlain l) → run step (new (fun _ => nested) id .empty) w = some F →
      ∀ value ∈ listInstances .default F.etcd "order-svc", value.name = "order-svc"
        ∧ ∃ j i inst, (j, EtcdLabel.call i (.register inst)) ∈ w ∧ value = id inst
          ∧ groupPath nested = groupPath .default := by
  rw [tenants_apart_iff (fun _ => nested) id .refl .default (by decide)]
  exact fun h => h (by decide) 0 (by decide) (by decide +kernel)

/-- **Without slashes the groups are apart**: whatever the processes do, an instance that is listed
is of the service asked for, and, but for its weight, one that was registered in the namespace and
the group of the listing. -/
theorem tenants_apart (hreread : ∀ inst : ServiceInstance, inst.ButWeight (reread inst))
    (hservice : SlashFree serviceName)
    (hconfig : SlashFree config.namespace ∧ SlashFree config.group)
    (hconfigs : ∀ j, SlashFree (configs j).namespace ∧ SlashFree (configs j).group)
    (hw : ∀ l ∈ w, RegistersPlain l) (hrun : run step (new configs reread .empty) w = some F)
    (hvalue : value ∈ listInstances config F.etcd serviceName) :
    value.name = serviceName ∧ ∃ j i inst, (j, EtcdLabel.call i (.register inst)) ∈ w
      ∧ inst.ButWeight value
      ∧ (configs j).namespace = config.namespace ∧ (configs j).group = config.group := by
  obtain ⟨-, j, i, inst, hi, rfl, -, ⟨hgroup, hname⟩ | hbelow⟩ :=
    listed_from hservice hw hrun hvalue
  · obtain ⟨weight, heq⟩ := hreread inst
    exact ⟨by rw [heq]; exact hname, j, i, inst, hi, ⟨weight, heq⟩,
      eq_of_groupPath hconfig.1 (hconfigs j).1 hconfig.2 (hconfigs j).2 hgroup⟩
  · exact absurd hbelow (not_prefix_groupPath (hconfigs j).1 (hconfigs j).2)

/-- Process 0 is in the group `dev`, the others are in `prod`. -/
def devAndProd (j : ℕ) : RegistryConfig :=
  if j = 0 then .default else { RegistryConfig.default with group := "prod" }

theorem slashFree_devAndProd (j : ℕ) :
    SlashFree (devAndProd j).namespace ∧ SlashFree (devAndProd j).group := by
  rw [devAndProd]
  split_ifs <;> decide

/-- `tenants_apart` for an instance that is registered in both groups. -/
theorem tenants_apart_both :
    ∃ F, run step (new devAndProd id .empty) (joining 0 order 7 ++ joining 1 order 8) = some F
      ∧ order.name = "order-svc"
      ∧ ∃ j i inst, (j, EtcdLabel.call i (.register inst))
          ∈ joining 0 order 7 ++ joining 1 order 8
        ∧ inst.ButWeight order
        ∧ (devAndProd j).namespace = RegistryConfig.default.namespace
        ∧ (devAndProd j).group = RegistryConfig.default.group := by
  obtain ⟨F, hrun⟩ : ∃ F, run step (new devAndProd id .empty)
    (joining 0 order 7 ++ joining 1 order 8) = some F := ⟨_, rfl⟩
  have horder : SlashFree order.name ∧ SlashFree order.serviceId := by decide
  have hw : ∀ l ∈ joining 0 order 7 ++ joining 1 order 8, RegistersPlain l := by
    simpa [joining, RegistersPlain] using horder
  refine ⟨F, hrun, tenants_apart .refl (by decide) (by decide) slashFree_devAndProd hw hrun ?_⟩
  obtain rfl := Option.some.inj hrun
  rw [listInstances, if_pos (by decide +kernel), LeaseStore.mem_range]
  exact ⟨RegistryConfig.default.keyOf order, by decide +kernel, by decide +kernel⟩

end Fleet

end PecsRegistry
