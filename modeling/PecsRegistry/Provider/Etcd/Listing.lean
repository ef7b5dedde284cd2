import Mathlib.Data.String.Basic
import PecsRegistry.Machinery.LeaseStore
import PecsRegistry.Machinery.Transition
import PecsRegistry.Provider.Etcd.System

/-!
# Provider/Etcd/Listing — what `list_instances` finds of what was registered

`do_register_once` puts an instance under `/{namespace}/{group}/{service_name}/{service_id}`, and
`list_instances` gets all keys that begin with `/{namespace}/{group}/{service_name}/`.  A slash in a
name or an id is not escaped, and slashes at its ends are trimmed: a listing may show instances of
another service, and an instance may be written over by another (`listing_exact_iff`).  Without
slashes neither happens (`listing_exact`).  Here instances read back from JSON as they were.
-/

namespace PecsRegistry

open Transition

/-- The service discovery of a registry over what etcd holds. -/
def listInstances (config : RegistryConfig) (etcd : Etcd) (serviceName : String) :
    List ServiceInstance :=
  if config.active then
    etcd.range (· ≤ ·) fun key =>
      decide ((config.makeServicePrefix serviceName).toList <+: key.toList)
  else []

/-- What is listed is in etcd, under the prefix of the service. -/
theorem entry_of_listed {config : RegistryConfig} {etcd : Etcd} {serviceName : String}
    {inst : ServiceInstance} (hinst : inst ∈ listInstances config etcd serviceName) :
    config.active ∧ ∃ key id, etcd.entries.lookup key = some (inst, id)
      ∧ (config.makeServicePrefix serviceName).toList <+: key.toList := by
  rw [listInstances] at hinst
  split_ifs at hinst with hactive
  · obtain ⟨key, hprefix, hvalue⟩ := LeaseStore.mem_range.mp hinst
    obtain ⟨⟨value, id⟩, hentry, rfl⟩ := Option.map_eq_some_iff.mp hvalue
    exact ⟨hactive, key, id, hentry, of_decide_eq_true hprefix⟩
  · cases hinst

/-- Where a `do_register_once` of some handle stands. -/
inductive RegisterOnce
  | idle
  | putting (config : RegistryConfig) (inst : ServiceInstance) (lease : ℕ)
  | registered

/-- Etcd, the calls of `do_register_once`, and the instances written so far, oldest first. -/
structure Registrations where
  etcd : Etcd
  calls : ℕ → RegisterOnce
  written : List ServiceInstance

/-- A call of a handle is granted its lease, or puts its instance. -/
inductive RegisterLabel
  | leaseGrant (i : ℕ) (config : RegistryConfig) (inst : ServiceInstance) (lease : ℕ)
  | put (i : ℕ)

namespace Registrations

variable {config : RegistryConfig} {s s' : Registrations} {l : RegisterLabel}
  {w : List RegisterLabel} {inst other : ServiceInstance} {serviceName : String}

@[simps]
def setCall (s : Registrations) (i : ℕ) (c : RegisterOnce) : Registrations :=
  { s with calls := Function.update s.calls i c }

/-- One step of the calls. -/
def step (s : Registrations) : RegisterLabel → Option Registrations
  | .leaseGrant i config inst lease =>
      match s.calls i with
      | .idle =>
          if fresh : s.etcd.state lease = none then
            some ({ s with etcd := s.etcd.grant lease config.leaseTtl fresh }.setCall i
              (.putting config inst lease))
          else none
      | _ => none
  | .put i =>
      match s.calls i with
      | .putting config inst lease =>
          if live : s.etcd.state lease = some .live then
            some ({ s with
              etcd := s.etcd.put (config.keyOf inst) inst lease live
              written := s.written ++ [inst] }.setCall i .registered)
          else none
      | _ => none

/-- Nothing is written yet. -/
def start : Registrations := ⟨.empty, fun _ => .idle, []⟩

/-- The handles have one namespace and group. -/
def OfGroup (config : RegistryConfig) : RegisterLabel → Prop
  | .leaseGrant _ config' _ _ =>
      config'.namespace = config.namespace ∧ config'.group = config.group
  | .put _ => True

/-- The instance is the last one written under its key. -/
def Latest (config : RegistryConfig) (written : List ServiceInstance) (inst : ServiceInstance) :
    Prop :=
  (written.filter fun other => config.keyOf other = config.keyOf inst).getLast? = some inst

instance (config : RegistryConfig) (written : List ServiceInstance) (inst : ServiceInstance) :
    Decidable (Latest config written inst) := inferInstanceAs (Decidable (_ = _))

/-! ## What is filed where -/

/-- Etcd holds under each key the instance written under it last. -/
structure Filed (config : RegistryConfig) (s : Registrations) : Prop where
  pending : ∀ i config' inst lease, s.calls i = .putting config' inst lease →
    config'.namespace = config.namespace ∧ config'.group = config.group
  lookup : ∀ key, (s.etcd.entries.lookup key).map Prod.fst
    = (s.written.filter fun inst => config.keyOf inst = key).getLast?

theorem keyOf_congr {config' : RegistryConfig}
    (h : config'.namespace = config.namespace ∧ config'.group = config.group)
    (inst : ServiceInstance) : config'.keyOf inst = config.keyOf inst := by
  rw [RegistryConfig.keyOf, RegistryConfig.keyOf, RegistryConfig.makeInstanceKey,
    RegistryConfig.makeInstanceKey, h.1, h.2]

theorem Filed.step (h : s.Filed config) (hl : OfGroup config l) (hstep : s.step l = some s') :
    s'.Filed config := by
  revert hl hstep
  fun_cases Registrations.step s l <;> intro hl hstep <;>
    simp only [reduceCtorEq, Option.some.injEq] at hstep <;> subst hstep
  case case1 i config' inst lease _ fresh =>
    refine ⟨fun j config'' inst' lease' hj => ?_, h.lookup⟩
    rw [setCall_calls, Function.update_apply] at hj
    split_ifs at hj
    · obtain ⟨rfl, -, -⟩ := RegisterOnce.putting.inj hj
      exact hl
    · exact h.pending j config'' inst' lease' hj
  case case4 i config' inst lease hi live =>
    refine ⟨fun j config'' inst' lease' hj => ?_, fun key => ?_⟩
    · rw [setCall_calls, Function.update_apply] at hj
      split_ifs at hj
      exact h.pending j config'' inst' lease' hj
    · change ((s.etcd.entries.insert (config'.keyOf inst) (inst, lease)).lookup key).map Prod.fst
        = _
      rw [keyOf_congr (h.pending i config' inst lease hi), HashMap.lookup_insert,
        setCall_written, List.filter_append]
      rcases eq_or_ne key (config.keyOf inst) with rfl | hne
      · simp
      · rw [if_neg hne, h.lookup, List.filter_cons_of_neg (by simpa using hne.symm),
          List.filter_nil, List.append_nil]

theorem filed_start : start.Filed config :=
  ⟨fun _ _ _ _ h => (nomatch h), fun _ => rfl⟩

theorem filed_run (hw : ∀ l ∈ w, OfGroup config l) (hrun : run step start w = some s) :
    s.Filed config :=
  invariant_run (C := fun _ l => OfGroup config l) (fun _ _ _ h hl hstep => h.step hl hstep)
    filed_start (eachStep_of_forall_mem hw) hrun

/-! ## What is listed -/

/-- The path of an instance below its group. -/
def pathOf (inst : ServiceInstance) : List Char :=
  (trimSlashes inst.name).toList ++ '/' :: (trimSlashes inst.serviceId).toList

/-- The path of a service below its group. -/
def pathPrefix (serviceName : String) : List Char := (trimSlashes serviceName).toList ++ ['/']

/-- The path of a group. -/
def groupPath (config : RegistryConfig) : List Char :=
  ("/" ++ trimSlashes config.namespace ++ "/" ++ trimSlashes config.group ++ "/").toList

theorem toList_keyOf (config : RegistryConfig) (inst : ServiceInstance) :
    (config.keyOf inst).toList = groupPath config ++ pathOf inst := by
  simp [RegistryConfig.keyOf, RegistryConfig.makeInstanceKey, groupPath, pathOf]

theorem toList_makeServicePrefix (config : RegistryConfig) (serviceName : String) :
    (config.makeServicePrefix serviceName).toList
      = groupPath config ++ pathPrefix serviceName := by
  simp [RegistryConfig.makeServicePrefix, groupPath, pathPrefix]

theorem keyOf_eq_iff : config.keyOf inst = config.keyOf other ↔ pathOf inst = pathOf other := by
  rw [← String.toList_inj, toList_keyOf, toList_keyOf, List.append_cancel_left_eq]

/-- An instance is under the prefix of its own service. -/
theorem pathPrefix_of_name (inst : ServiceInstance) : pathPrefix inst.name <+: pathOf inst :=
  ⟨(trimSlashes inst.serviceId).toList, by simp [pathPrefix, pathOf]⟩

/-- **What is listed**: the instances under the prefix that were written last under their keys. -/
theorem Filed.mem_listInstances (h : s.Filed config) (hactive : config.active = true) :
    inst ∈ listInstances config s.etcd serviceName
      ↔ pathPrefix serviceName <+: pathOf inst ∧ Latest config s.written inst := by
  rw [listInstances, if_pos hactive, LeaseStore.mem_range]
  constructor
  · rintro ⟨key, hkey, hinst⟩
    rw [h.lookup] at hinst
    obtain rfl : config.keyOf inst = key := by
      simpa using (List.mem_filter.mp (List.mem_of_getLast? hinst)).2
    rw [decide_eq_true_iff, toList_makeServicePrefix, toList_keyOf,
      List.prefix_append_right_inj] at hkey
    exact ⟨hkey, hinst⟩
  · rintro ⟨hpath, hlatest⟩
    refine ⟨config.keyOf inst, ?_, (h.lookup _).trans hlatest⟩
    rw [decide_eq_true_iff, toList_makeServicePrefix, toList_keyOf, List.prefix_append_right_inj]
    exact hpath

theorem Filed.nodup_listInstances (h : s.Filed config) :
    (listInstances config s.etcd serviceName).Nodup := by
  rw [listInstances]
  split_ifs
  · refine LeaseStore.nodup_range config.keyOf fun key inst hinst => ?_
    rw [h.lookup] at hinst
    simpa using (List.mem_filter.mp (List.mem_of_getLast? hinst)).2
  · exact List.nodup_nil

theorem Latest.mem {written : List ServiceInstance} (h : Latest config written inst) :
    inst ∈ written := (List.mem_filter.mp (List.mem_of_getLast? h)).1

/-- Where no instance of the service has been written over, and every other instance under its
prefix has, the listing is exact. -/
theorem Filed.listInstances_perm (h : s.Filed config) (hactive : config.active = true)
    (hdistinct : (s.written.map fun inst => (inst.name, inst.serviceId)).Nodup)
    (hown : ∀ inst ∈ s.written, inst.name = serviceName → Latest config s.written inst)
    (hothers : ∀ inst ∈ s.written, inst.name ≠ serviceName →
      pathPrefix serviceName <+: pathOf inst → ¬ Latest config s.written inst) :
    (listInstances config s.etcd serviceName).Perm
      (s.written.filter fun inst => inst.name = serviceName) := by
  rw [List.perm_ext_iff_of_nodup h.nodup_listInstances ((hdistinct.of_map _).filter _)]
  intro inst
  rw [h.mem_listInstances hactive, List.mem_filter, decide_eq_true_iff]
  constructor
  · rintro ⟨hpath, hlatest⟩
    exact ⟨hlatest.mem, by_contra fun hname => hothers inst hlatest.mem hname hpath hlatest⟩
  · rintro ⟨hinst, rfl⟩
    exact ⟨pathPrefix_of_name inst, hown inst hinst rfl⟩

/-- **The listing of a service is exact if and only if** none of its instances has been written over
and every other instance under its prefix has. -/
theorem listing_exact_iff (hactive : config.active = true) (hw : ∀ l ∈ w, OfGroup config l)
    (hrun : run step start w = some s)
    (hdistinct : (s.written.map fun inst => (inst.name, inst.serviceId)).Nodup)
    (serviceName : String) :
    (listInstances config s.etcd serviceName).Perm
        (s.written.filter fun inst => inst.name = serviceName)
      ↔ (∀ inst ∈ s.written, inst.name = serviceName → Latest config s.written inst)
        ∧ ∀ inst ∈ s.written, inst.name ≠ serviceName →
          pathPrefix serviceName <+: pathOf inst → ¬ Latest config s.written inst := by
  have hfiled := filed_run hw hrun
  constructor
  · intro hperm
    have hmem : ∀ inst, pathPrefix serviceName <+: pathOf inst ∧ Latest config s.written inst
        ↔ inst ∈ s.written ∧ inst.name = serviceName := by
      intro inst
      rw [← hfiled.mem_listInstances hactive, hperm.mem_iff, List.mem_filter, decide_eq_true_iff]
    exact ⟨fun inst hinst hname => ((hmem inst).mpr ⟨hinst, hname⟩).2,
      fun inst _ hname hpath hlatest => hname ((hmem inst).mp ⟨hpath, hlatest⟩).2⟩
  · rintro ⟨hown, hothers⟩
    exact hfiled.listInstances_perm hactive hdistinct hown hothers

/-! ## Without slashes -/

/-- The string contains no slash. -/
def SlashFree (s : String) : Prop := '/' ∉ s.toList

instance : DecidablePred SlashFree := fun s => inferInstanceAs (Decidable ('/' ∉ s.toList))

theorem dropWhile_slash {chars : List Char} (h : '/' ∉ chars) :
    chars.dropWhile (· = '/') = chars := by
  cases chars with
  | nil => rfl
  | cons c chars =>
    refine List.dropWhile_cons_of_neg fun hc => h ?_
    rw [← of_decide_eq_true hc]
    exact List.mem_cons_self

theorem SlashFree.trimSlashes_eq {s : String} (h : SlashFree s) : trimSlashes s = s := by
  rw [trimSlashes, dropWhile_slash h, dropWhile_slash (by rwa [List.mem_reverse]),
    List.reverse_reverse, String.ofList_toList]

/-- A path whose name and id have no slash tells them apart. -/
theorem eq_of_path {name serviceId : String} {name' serviceId' : List Char} (hname : SlashFree name)
    (hid : SlashFree serviceId)
    (h : name.toList ++ '/' :: serviceId.toList = name' ++ '/' :: serviceId') :
    name.toList = name' ∧ serviceId.toList = serviceId' := by
  obtain ⟨hnames, -, hids⟩ := (List.append_cons_inj_of_notMem hname hid).mp h
  exact ⟨hnames, hids⟩

/-- An instance that no other one shares its key with is the last one written under it. -/
theorem latest_of_forall {written : List ServiceInstance} (hinst : inst ∈ written)
    (h : ∀ other ∈ written, config.keyOf other = config.keyOf inst → other = inst) :
    Latest config written inst := by
  have hself : inst ∈ written.filter fun other => config.keyOf other = config.keyOf inst := by
    simp [hinst]
  obtain ⟨last, hlast⟩ := Option.isSome_iff_exists.mp
    (List.getLast?_isSome.mpr (List.ne_nil_of_mem hself))
  obtain ⟨hmem, hkey⟩ := List.mem_filter.mp (List.mem_of_getLast? hlast)
  rw [Latest, hlast, h last hmem (of_decide_eq_true hkey)]

/-- **Without slashes in the names and ids the listing of every service is exact.** -/
theorem listing_exact (hactive : config.active = true) (hw : ∀ l ∈ w, OfGroup config l)
    (hrun : run step start w = some s)
    (hdistinct : (s.written.map fun inst => (inst.name, inst.serviceId)).Nodup)
    (hfree : ∀ inst ∈ s.written, SlashFree inst.name ∧ SlashFree inst.serviceId)
    (hservice : SlashFree serviceName) :
    (listInstances config s.etcd serviceName).Perm
      (s.written.filter fun inst => inst.name = serviceName) := by
  have hpath : ∀ inst ∈ s.written,
      pathOf inst = inst.name.toList ++ '/' :: inst.serviceId.toList := by
    intro inst hinst
    rw [pathOf, (hfree inst hinst).1.trimSlashes_eq, (hfree inst hinst).2.trimSlashes_eq]
  refine (filed_run hw hrun).listInstances_perm hactive hdistinct (fun inst hinst _ => ?_)
    fun inst hinst hname hprefix _ => ?_
  · refine latest_of_forall hinst fun other hother hkey => ?_
    have heq := keyOf_eq_iff.mp hkey
    rw [hpath other hother, hpath inst hinst] at heq
    obtain ⟨hnames, hids⟩ := eq_of_path (hfree other hother).1 (hfree other hother).2 heq
    exact List.inj_on_of_nodup_map hdistinct hother hinst
      (Prod.ext (String.toList_inj.mp hnames) (String.toList_inj.mp hids))
  · obtain ⟨rest, hrest⟩ := hprefix
    rw [hpath inst hinst, pathPrefix, hservice.trimSlashes_eq, List.append_assoc] at hrest
    exact hname (String.toList_inj.mp
      (eq_of_path (hfree inst hinst).1 (hfree inst hinst).2 hrest.symm).1)

/-- A handle of the default namespace and group. -/
def handle : RegistryConfig := .default

/-- Two instances are registered, one after the other. -/
def registering (first second : ServiceInstance) : List RegisterLabel :=
  [.leaseGrant 0 handle first 0, .put 0, .leaseGrant 1 handle second 1, .put 1]

theorem ofGroup_registering (first second : ServiceInstance) :
    ∀ l ∈ registering first second, OfGroup handle l := by
  simp [registering, OfGroup]

/-- An instance of a service. -/
def named (name serviceId : String) : ServiceInstance :=
  .new serviceId "pecs" "dev" name none none

/-- `listing_exact_iff` for two services without slashes. -/
theorem listing_exact_iff_two :
    ∃ s, run step start (registering (named "order" "1") (named "stock" "1")) = some s
      ∧ ((listInstances handle s.etcd "order").Perm
          (s.written.filter fun inst => inst.name = "order")
        ↔ (∀ inst ∈ s.written, inst.name = "order" → Latest handle s.written inst)
          ∧ ∀ inst ∈ s.written, inst.name ≠ "order" →
            pathPrefix "order" <+: pathOf inst → ¬ Latest handle s.written inst) := by
  obtain ⟨s, hrun⟩ : ∃ s, run step start (registering (named "order" "1") (named "stock" "1"))
    = some s := ⟨_, rfl⟩
  have hdistinct : (s.written.map fun inst => (inst.name, inst.serviceId)).Nodup := by
    obtain rfl := Option.some.inj hrun
    decide
  exact ⟨s, hrun, listing_exact_iff (by decide) (ofGroup_registering _ _) hrun hdistinct "order"⟩

/-- **Another service's instance is listed.**  The instances of `order/archive` are under the prefix
of `order`. -/
theorem listing_of_another : ¬ ∀ (config : RegistryConfig) (s : Registrations)
    (w : List RegisterLabel) (serviceName : String), config.active = true →
    (∀ l ∈ w, OfGroup config l) → run step start w = some s →
    (s.written.map fun inst => (inst.name, inst.serviceId)).Nodup →
    (listInstances config s.etcd serviceName).Perm
      (s.written.filter fun inst => inst.name = serviceName) := by
  intro h
  obtain ⟨s, hrun⟩ : ∃ s, run step start
    (registering (named "order" "1") (named "order/archive" "1")) = some s := ⟨_, rfl⟩
  have hw := ofGroup_registering (named "order" "1") (named "order/archive" "1")
  have hwritten : s.written = [named "order" "1", named "order/archive" "1"] := by
    obtain rfl := Option.some.inj hrun
    rfl
  have hperm := h handle s _ "order" (by decide) hw hrun (by rw [hwritten]; decide)
  have hlisted : named "order/archive" "1" ∈ listInstances handle s.etcd "order" := by
    rw [(filed_run hw hrun).mem_listInstances (by decide), hwritten]
    decide
  rw [hperm.mem_iff, List.mem_filter, decide_eq_true_iff] at hlisted
  exact absurd hlisted.2 (by decide)

end Registrations

end PecsRegistry
