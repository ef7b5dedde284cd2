import PecsRegistry.Provider.Etcd.Fleet
import PecsRegistry.Provider.Etcd.Hub

/-!
# Provider/Etcd/Cluster — from a `register` to the snapshot of a client

The processes that register (`Fleet`) and a client that discovers a service (`EtcdHub`), on one
etcd: what a process does to etcd is reported to the watches of the client.  **A client discovers
what is registered** (`discovered`): once it has reconciled and nothing is on its way, its snapshot
has every instance that was put under the prefix of the service and that its own process has left
alone while the lease lived, whatever the others do.
-/

namespace PecsRegistry

open Transition Writes LeaseStore

/-- The registries of the processes, and a client; etcd is where the client has it. -/
structure Cluster where
  registries : ℕ → EtcdRegistry
  client : Deployment EtcdHub

/-- A step of process `j`, with what etcd reports of it; of the client's directory; or of one of its
forwarding tasks. -/
inductive ClusterLabel
  | process (j : ℕ) (l : EtcdLabel) (report : Option (Op String ServiceInstance))
  | directory (l : DirectoryLabel)
  | forwarder (f : ℕ) (owned : Bool) (l : ForwarderLabel)

/-- What the client sees of a step. -/
def ClusterLabel.seen : ClusterLabel → List (DirectoryLabel ⊕ EtcdHubOp)
  | process _ _ report => (report.map fun op => .inr (.store op)).toList
  | directory l => [.inl l]
  | forwarder f owned l => [.inr (.forwarder f owned l)]

namespace Cluster

variable {C C' : Cluster} {l : ClusterLabel} {w : List ClusterLabel} {j : ℕ}
  {configs : ℕ → RegistryConfig} {config : RegistryConfig} {name : String} {owner : String → ℕ}
  {P : ℕ → ServiceInstance → Prop} {reread : ServiceInstance → ServiceInstance}

def etcd (C : Cluster) : Etcd := C.client.registry.etcd

/-- The processes, with the etcd of the client. -/
def fleet (C : Cluster) : Fleet := ⟨C.etcd, C.registries⟩

/-- One step: a process does to etcd what is reported to the client, or the client moves. -/
def step (C : Cluster) (l : ClusterLabel) : Option Cluster :=
  (run EtcdHub.step C.client l.seen).bind fun client =>
    match l with
    | .process j l _ =>
        (C.fleet.step (j, l)).bind fun F =>
          if client.registry.etcd = F.etcd then some ⟨F.registries, client⟩ else none
    | _ => some { C with client }

/-- Processes that have not registered, and a client that has not asked, on an empty etcd. -/
def new (configs : ℕ → RegistryConfig) (reread : ServiceInstance → ServiceInstance)
    (config : RegistryConfig) (diskCache : Bool) (disk : Disk) : Cluster where
  registries j := .new (configs j) reread .empty
  client := ⟨.withOptions diskCache disk, ⟨⟨config, []⟩, .empty, fun _ => []⟩⟩

/-! ## The two sides of a step -/

theorem client_of_step (h : C.step l = some C') :
    run EtcdHub.step C.client l.seen = some C'.client := by
  obtain ⟨client, hclient, hrest⟩ := Option.bind_eq_some_iff.mp h
  rw [hclient]
  cases l with
  | process j l report =>
    obtain ⟨F, -, hF⟩ := Option.bind_eq_some_iff.mp hrest
    split_ifs at hF
    exact congrArg _ (congrArg Cluster.client (Option.some.inj hF))
  | _ => exact congrArg _ (congrArg Cluster.client (Option.some.inj hrest))

theorem fleet_of_process {l : EtcdLabel} {report : Option (Op String ServiceInstance)}
    (h : C.step (.process j l report) = some C') : C.fleet.step (j, l) = some C'.fleet := by
  obtain ⟨client, -, hrest⟩ := Option.bind_eq_some_iff.mp h
  obtain ⟨F, hF, hsame⟩ := Option.bind_eq_some_iff.mp hrest
  split_ifs at hsame with hetcd
  obtain rfl := Option.some.inj hsame
  rw [hF, fleet, Cluster.etcd, hetcd]

/-- What a process is reported to do to etcd, it does. -/
theorem apply_of_process {l : EtcdLabel} {op : Op String ServiceInstance}
    (h : C.step (.process j l (some op)) = some C') :
    C.client.registry.act (.store op) = some C'.client.registry
      ∧ C'.client.directory = C.client.directory := by
  have hclient := client_of_step h
  rw [ClusterLabel.seen, Option.map_some, Option.toList_some, run_singleton] at hclient
  exact Provider.step_inr_eq_some.mp (EtcdHub.provider_of_step hclient)

/-- A key that is put holds its value. -/
theorem lookup_of_put {l : EtcdLabel} {key : String} {value : ServiceInstance} {id : ℕ}
    (h : C.step (.process j l (some (.put key value id))) = some C') :
    C'.etcd.entries.lookup key = some (value, id) := by
  obtain ⟨etcd, happly, hreg⟩ := Option.map_eq_some_iff.mp (apply_of_process h).1
  obtain ⟨live, rfl⟩ := eq_of_put happly
  rw [Cluster.etcd, ← hreg]
  exact Finmap.lookup_insert _

/-- A process that does nothing to etcd leaves the client as it is. -/
theorem client_of_silent {l : EtcdLabel} (h : C.step (.process j l none) = some C') :
    C'.client = C.client := (Option.some.inj (client_of_step h)).symm

/-- The steps of the client leave the processes and etcd alone. -/
theorem fleet_of_client (h : C.step l = some C') (hl : ∀ j l' report, l ≠ .process j l' report) :
    C'.fleet = C.fleet := by
  have hclient := client_of_step h
  obtain ⟨client, -, hrest⟩ := Option.bind_eq_some_iff.mp h
  have hetcd : C'.etcd = C.etcd := by
    cases l with
    | process j l report => exact absurd rfl (hl j l report)
    | directory l | forwarder f owned l =>
      rw [ClusterLabel.seen, run_singleton] at hclient
      exact EtcdHub.etcd_of_step hclient fun op hop => by cases hop
  have hregistries : C'.registries = C.registries := by
    cases l with
    | process j l report => exact absurd rfl (hl j l report)
    | _ => exact (congrArg Cluster.registries (Option.some.inj hrest)).symm
  rw [fleet, fleet, hetcd, hregistries]

/-! ## What the processes keep -/

/-- Process `j` registers only instances with `P j`. -/
def Registers (P : ℕ → ServiceInstance → Prop) : ClusterLabel → Prop
  | .process j (.call _ (.register inst)) _ => P j inst
  | _ => True

/-- The key of the instance is the process's own, and plain for the service the client discovers,
with the instance that its text reads back as. -/
def Proper (owner : String → ℕ) (configs : ℕ → RegistryConfig)
    (reread : ServiceInstance → ServiceInstance) (config : RegistryConfig) (name : String) (j : ℕ)
    (inst : ServiceInstance) : Prop :=
  owner ((configs j).keyOf inst) = j
    ∧ EtcdHub.Plain config name ((configs j).keyOf inst) (reread inst)

theorem sourced_step (h : C.fleet.Sourced configs reread .empty P) (hl : Registers P l)
    (hstep : C.step l = some C') : C'.fleet.Sourced configs reread .empty P := by
  cases l with
  | process j l report =>
    exact h.step (fun i inst heq => by subst heq; exact hl) (fleet_of_process hstep)
  | _ => exact fleet_of_client hstep (fun _ _ _ hl => by cases hl) ▸ h

theorem separate_step (hsourced : C.fleet.Sourced configs reread .empty P)
    (h : C.fleet.Separate owner)
    (hl : Registers (fun j inst => owner ((configs j).keyOf inst) = j) l)
    (hstep : C.step l = some C') : C'.fleet.Separate owner := by
  cases l with
  | process j l report =>
    refine h.step ?_ (fleet_of_process hstep)
    unfold Fleet.RegistersOwn
    split
    · next heq =>
      cases heq
      rw [hsourced.config]
      exact hl
    · trivial
  | _ => exact fleet_of_client hstep (fun _ _ _ hl => by cases hl) ▸ h

theorem Registers.imp {Q : ℕ → ServiceInstance → Prop} (h : Registers P l)
    (himp : ∀ j inst, P j inst → Q j inst) : Registers Q l := by
  cases l with
  | process j l report =>
    match l with
    | .call i (.register inst) => exact himp j inst h
    | .call i .deregister | .call i .cancel | .call i .arm | .call i .takeKey | .call i .takeLease
    | .call i (.connected _) | .call i (.deleted _) | .call i (.revoked _) | .task _ _ | .answer _
    | .expire _ => trivial
  | _ => trivial

/-- What holds in every state: the entries were put by processes that were told to, and no two
processes have a lease or a key in common. -/
structure Orderly (owner : String → ℕ) (configs : ℕ → RegistryConfig)
    (reread : ServiceInstance → ServiceInstance) (config : RegistryConfig) (name : String)
    (C : Cluster) : Prop where
  sourced : C.fleet.Sourced configs reread .empty (Proper owner configs reread config name)
  separate : C.fleet.Separate owner
  guarded : C.client.directory.Guarded

theorem Orderly.step (h : C.Orderly owner configs reread config name)
    (hl : Registers (Proper owner configs reread config name) l) (hstep : C.step l = some C') :
    C'.Orderly owner configs reread config name where
  sourced := sourced_step h.sourced hl hstep
  separate := separate_step h.sourced h.separate (hl.imp fun _ _ hP => hP.1) hstep
  guarded := preserved_run (I := fun s : Deployment EtcdHub => s.directory.Guarded)
    (fun _ _ _ hguarded hs => EtcdHub.guarded_of_step hguarded (EtcdHub.provider_of_step hs))
    h.guarded (client_of_step hstep)

theorem orderly_new (diskCache : Bool) (disk : Disk) :
    (new configs reread config diskCache disk).Orderly owner configs reread config name where
  sourced := Fleet.sourced_new
  separate := Fleet.separate_new configs reread .empty
  guarded := ServiceDirectory.guarded_withOptions diskCache disk

/-! ## What the client sees -/

/-- The steps of the watch task and of the processes, while the etcd stream does not end. -/
def Watching (r k : ℕ) : ClusterLabel → Prop
  | .process _ _ _ => True
  | .directory l => Following (ω := EtcdHubOp) k (.inl l)
  | .forwarder f _ l => f = r → l ≠ .closed ∧ l ≠ .failed

/-- **What processes put is plain to the client.** -/
theorem Orderly.streaming (h : C'.Orderly owner configs reread config name) {r k : ℕ}
    (hl : Watching r k l) (hstep : C.step l = some C') :
    ∀ a ∈ l.seen, EtcdHub.Streaming config name r k a := by
  cases l with
  | process j l report =>
    intro a ha
    obtain ⟨op, rfl, rfl⟩ : ∃ op, report = some op ∧ .inr (.store op) = a := by
      simpa [ClusterLabel.seen] using ha
    rintro key value id rfl
    rcases h.sourced.entries key value id (lookup_of_put hstep) with
      hstart | ⟨j', inst, ⟨-, hplain⟩, -, rfl, rfl⟩
    · cases hstart
    · exact hplain
  | directory l =>
    intro a ha
    obtain rfl := List.mem_singleton.mp ha
    exact hl
  | forwarder f owned l =>
    intro a ha
    obtain rfl := List.mem_singleton.mp ha
    exact hl

/-! ## What stays -/

/-- Process `j` does nothing to etcd. -/
def Left (j : ℕ) : ClusterLabel → Prop
  | .process j' _ report => j' = j → report = none
  | _ => True

/-- **A key that is gone stays so** until its own process writes it. -/
theorem Orderly.gone_step (h : C.Orderly owner configs reread config name) {key : String}
    (hgone : C.etcd.entries.lookup key = none) (hl : Left (owner key) l)
    (hstep : C.step l = some C') : C'.etcd.entries.lookup key = none := by
  cases l with
  | process j l report =>
    by_cases hj : j = owner key
    · obtain rfl := hl hj
      rw [Cluster.etcd, client_of_silent hstep]
      exact hgone
    · refine (h.separate.lookup_eq (fleet_of_process hstep) (Ne.symm hj) ?_).trans hgone
      intro value lease hentry
      cases hgone.symm.trans hentry
  | _ =>
    have hfleet := fleet_of_client hstep fun _ _ _ hl => by cases hl
    exact (congrArg (fun F : Fleet => F.etcd.entries.lookup key) hfleet).trans hgone

theorem orderly_run (h : C.Orderly owner configs reread config name)
    (hw : ∀ l ∈ w, Registers (Proper owner configs reread config name) l)
    (hrun : run step C w = some C') : C'.Orderly owner configs reread config name :=
  invariant_run (C := fun _ l => Registers (Proper owner configs reread config name) l)
    (fun _ _ _ h hl hstep => h.step hl hstep) h (eachStep_of_forall_mem hw) hrun

/-- What the client sees of a run is a run of its own. -/
theorem streaming_run (h : C.Orderly owner configs reread config name) {r k : ℕ}
    (hw : ∀ l ∈ w, Registers (Proper owner configs reread config name) l)
    (hwatching : ∀ l ∈ w, Watching r k l) (hrun : run step C w = some C') :
    run EtcdHub.step C.client (w.flatMap ClusterLabel.seen) = some C'.client
      ∧ ∀ a ∈ w.flatMap ClusterLabel.seen, EtcdHub.Streaming config name r k a := by
  constructor
  · exact (run_shadow (I := fun _ => True) Cluster.client ClusterLabel.seen
      (fun _ _ _ _ _ hstep => ⟨trivial, client_of_step hstep⟩) trivial
      (eachStep_of_forall_mem fun l hl => hw l hl) hrun).2
  · have hseen := forall_mem_of_run (I := Orderly owner configs reread config name)
      (C := fun _ l => Registers (Proper owner configs reread config name) l ∧ Watching r k l)
      (D := fun l => ∀ a ∈ l.seen, EtcdHub.Streaming config name r k a)
      (fun _ _ _ h hl hstep => ⟨h.step hl.1 hstep, (h.step hl.1 hstep).streaming hl.2 hstep⟩) h
      (eachStep_of_forall_mem fun l hl => ⟨hw l hl, hwatching l hl⟩) hrun
    intro a ha
    obtain ⟨l, hl, ha⟩ := List.mem_flatMap.mp ha
    exact hseen l hl a ha

/-- Where the processes register under keys of their own, and the watch task of a client follows the
service by an open stream: once it has reconciled and nothing is on its way, the snapshot is what
etcd holds. -/
theorem snapshot_of_run {r k : ℕ} {C₀ C₁ : Cluster} {u v : List ClusterLabel} (diskCache : Bool)
    (disk : Disk)
    (hw : ∀ l ∈ w ++ (u ++ v), Registers (Proper owner configs reread config name) l)
    (hstart : run step (new configs reread config diskCache disk) w = some C₀)
    (hestablished : (EtcdHub.source config name r).Established k C₀.client)
    (hwatching : ∀ l ∈ u ++ v, Watching r k l) (hreset : .directory (.task k .reset) ∈ u ++ v)
    (hu : run step C₀ u = some C₁) (hv : run step C₁ v = some C)
    (hattached : EtcdHub.Attached r k C.client) (hdrained : EtcdHub.Drained r k C.client) :
    C₁.Orderly owner configs reread config name ∧ EtcdHub.Open config name r C.client.registry
      ∧ byId (C.client.directory.getInstances name)
        = reading (EtcdHub.keyOfId config name) C.client.registry.etcd.values := by
  have horderly : C₀.Orderly owner configs reread config name :=
    orderly_run (orderly_new diskCache disk) (fun l hl => hw l (List.mem_append_left _ hl)) hstart
  have hwu : ∀ l ∈ u ++ v, Registers (Proper owner configs reread config name) l :=
    fun l hl => hw l (List.mem_append_right _ hl)
  obtain ⟨hclient, hstreaming⟩ := streaming_run horderly hwu hwatching
    (run_append_eq_some.mpr ⟨C₁, hu, hv⟩)
  exact ⟨orderly_run horderly (fun l hl => hwu l (List.mem_append_left _ hl)) hu,
    EtcdHub.agree_of_run hestablished horderly.guarded hstreaming hclient
      (List.mem_flatMap.mpr ⟨_, hreset, List.mem_singleton_self _⟩) hattached hdrained⟩

/-- **A client forgets what is gone.**  In such a run, an instance whose key etcd has lost, be it
that it was deleted or that the lease of a dead process ran out, is not in the snapshot any more
once the client has reconciled and nothing is on its way, if its process has not come back. -/
theorem forgotten {r k : ℕ} {C₀ C₁ : Cluster} {u v : List ClusterLabel} (diskCache : Bool)
    (disk : Disk)
    (hw : ∀ l ∈ w ++ (u ++ v), Registers (Proper owner configs reread config name) l)
    (hstart : run step (new configs reread config diskCache disk) w = some C₀)
    (hestablished : (EtcdHub.source config name r).Established k C₀.client)
    (hwatching : ∀ l ∈ u ++ v, Watching r k l) (hreset : .directory (.task k .reset) ∈ u ++ v)
    (hu : run step C₀ u = some C₁) (hv : run step C₁ v = some C)
    (hattached : EtcdHub.Attached r k C.client) (hdrained : EtcdHub.Drained r k C.client)
    {id : String} (hgone : C₁.etcd.entries.lookup (config.makeInstanceKey name id) = none)
    (hleft : ∀ l ∈ v, Left (owner (config.makeInstanceKey name id)) l) :
    byId (C.client.directory.getInstances name) id = none := by
  obtain ⟨horderly, -, hagree⟩ := snapshot_of_run diskCache disk hw hstart hestablished
    hwatching hreset hu hv hattached hdrained
  have hwv : ∀ l ∈ v, Registers (Proper owner configs reread config name) l :=
    fun l hl => hw l (List.mem_append_right _ (List.mem_append_right _ hl))
  have hlast : C.etcd.entries.lookup (config.makeInstanceKey name id) = none :=
    (invariant_run (I := fun C : Cluster => C.Orderly owner configs reread config name
        ∧ C.etcd.entries.lookup (config.makeInstanceKey name id) = none)
      (C := fun _ l => Registers (Proper owner configs reread config name) l
        ∧ Left (owner (config.makeInstanceKey name id)) l)
      (fun _ _ _ h hl hstep => ⟨h.1.step hl.1 hstep, h.1.gone_step h.2 hl.2 hstep⟩)
      ⟨horderly, hgone⟩
      (eachStep_of_forall_mem fun l hl => ⟨hwv l hl, hleft l hl⟩) hv).2
  rw [hagree, reading, Option.bind_eq_none_iff]
  intro key hkey
  obtain ⟨-, rfl⟩ := EtcdHub.keyOfId_eq_some.mp hkey
  exact congrArg (Option.map Prod.fst) hlast

/-- The client loads the service, which has no instances yet, and subscribes. -/
def subscribing : List ClusterLabel :=
  [.call 0 (.loadOrWatch "order-svc"), .call 0 .read, .call 0 .lock, .call 0 (.listed (.ok [])),
    .call 0 .insert, .call 0 .lock, .call 0 (.subscribed (.ok 0))].map .directory

/-- Process `j` puts an instance under a lease. -/
def putting (j : ℕ) (inst : ServiceInstance) (lease : ℕ) : List ClusterLabel :=
  [.process j (.call 0 (.register inst)) none, .process j (.call 0 .cancel) none,
    .process j (.call 0 .arm) none, .process j (.task 0 .check) none,
    .process j (.task 0 (.connected true)) none,
    .process j (.task 0 (.granted lease true))
      (some (.grant lease RegistryConfig.default.leaseTtl)),
    .process j (.task 0 (.put true))
      (some (.put (RegistryConfig.default.keyOf inst) inst lease))]

/-- The client reconciles with a listing from before process 0 has put its instance. -/
def meeting : List ClusterLabel :=
  [.task 0 .enter, .task 0 .primed, .task 0 .tick, .task 0 (.listed (.ok []))].map .directory
    ++ putting 0 Fleet.order 7

/-- Process 1 joins, the reconcile completes, and the report on process 0 makes its way. -/
def delivering : List ClusterLabel :=
  putting 1 Fleet.stock 8 ++ [.directory (.task 0 .reset),
    .forwarder 0 true (.message [.put (RegistryConfig.default.keyOf Fleet.order) Fleet.order]),
    .forwarder 0 true .forward,
    .forwarder 0 true (.message [.put (RegistryConfig.default.keyOf Fleet.stock) Fleet.stock]),
    .forwarder 0 true .forward,
    .directory (.task 0 (.next (some (.upsert Fleet.order)))), .directory (.task 0 .apply)]

def start : Cluster := new (fun _ => .default) id .default false ∅

/-- The client with its stream, then etcd with the instance, and the end. -/
def met : Cluster := (run step start subscribing).get (by decide +kernel)

def putOrder : Cluster := (run step met meeting).get (by decide +kernel)

def joined : Cluster := (run step putOrder delivering).get (by decide +kernel)

theorem plain_order : EtcdHub.Plain .default "order-svc" (RegistryConfig.default.keyOf Fleet.order)
    Fleet.order :=
  fun _ => ⟨show '/' ∉ Fleet.order.serviceId.toList by decide +kernel, rfl⟩

theorem established_met : (EtcdHub.source .default "order-svc" 0).Established 0 met.client where
  task := by
    have ht : (met.client.directory.tasks 0).map
        (fun t => (t.name, t.stream, t.pending)) = some ("order-svc", some 0, none) := by
      decide +kernel
    obtain ⟨t, ht, heq⟩ := Option.map_eq_some_iff.mp ht
    obtain ⟨hname, heq⟩ := Prod.mk.inj heq
    exact ⟨t, ht, hname, Prod.mk.inj heq⟩
  isOpen := by
    have hforwarder : met.client.registry.watches.forwarders
        = [⟨"order-svc", .reading, .empty⟩] := by decide +kernel
    have hempty : met.client.registry.etcd = .empty := by decide +kernel
    refine ⟨by decide +kernel, by decide +kernel, ⟨_, congrArg (·[0]?) hforwarder, rfl,
      ForwarderState.noConfusion⟩, fun key value hvalue => ?_⟩
    rw [hempty] at hvalue
    cases hvalue
  backlog := by decide +kernel

/-- The reconcile completes, process 0 is seen and dies, and its lease runs out. -/
def dying : List ClusterLabel :=
  [.directory (.task 0 .reset),
    .forwarder 0 true (.message [.put (RegistryConfig.default.keyOf Fleet.order) Fleet.order]),
    .forwarder 0 true .forward, .directory (.task 0 (.next (some (.upsert Fleet.order)))),
    .directory (.task 0 .apply),
    .process 0 (.expire 7) (some (.release 7 .expired [RegistryConfig.default.keyOf Fleet.order]))]

/-- The report makes its way. -/
def reporting : List ClusterLabel :=
  [.forwarder 0 true (.message [.delete (RegistryConfig.default.keyOf Fleet.order)]),
    .forwarder 0 true .forward,
    .directory (.task 0 (.next (some (.delete "order-svc" Fleet.order.serviceId)))),
    .directory (.task 0 .apply)]

def dead : Cluster := (run step putOrder dying).get (by decide +kernel)

def reported : Cluster := (run step dead reporting).get (by decide +kernel)

theorem registers_reported : ∀ l ∈ subscribing ++ (meeting ++ dying ++ reporting),
    Registers (Proper Fleet.ownerOf (fun _ => .default) id .default "order-svc") l := by
  have horder : Proper Fleet.ownerOf (fun _ => .default) id .default "order-svc" 0 Fleet.order :=
    ⟨by decide +kernel, plain_order⟩
  simp [subscribing, meeting, dying, reporting, putting, Registers, horder]

/-- `forgotten` for a process whose lease runs out. -/
theorem forgotten_dead : byId (reported.client.directory.getInstances "order-svc")
    Fleet.order.serviceId = none := by
  obtain ⟨hattached, hdrained⟩ := EtcdHub.settled_iff.mpr
    (by decide +kernel : EtcdHub.AtRest 0 0 reported.client)
  have hdead : run step met (meeting ++ dying) = some dead :=
    run_append_eq_some.mpr ⟨putOrder, (Option.some_get _).symm, (Option.some_get _).symm⟩
  exact forgotten false ∅ registers_reported (Option.some_get _).symm established_met
    (by simp [meeting, dying, reporting, putting, Watching, Following]) (by simp [dying])
    hdead (Option.some_get _).symm hattached hdrained (by decide +kernel)
    (by simp [reporting, Left])

end Cluster

end PecsRegistry
