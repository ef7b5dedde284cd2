import PecsRegistry.Directory.Polling
import PecsRegistry.Provider.Nacos.Fleet

/-!
# Provider/Nacos/Client — a client of the processes on a Nacos server

A client's directory over Nacos hears of nothing: its watch streams end at once, and it knows what
its loads and reconciles were answered.  The connection to the server comes and goes (`NacosHubOp`).

Whatever the server does, **the client's snapshot is one whole answer** (`polled`), and once another
listing has been taken over, one that is no older (`replaced_since`).  Over a server that lists only
what was posted to it, **what the client knows has been registered** (`known_registered`).
-/

namespace PecsRegistry

open Transition

variable {ν ε : Type}

/-- What a client talks to: the processes with their server, whether requests get through, and the
number of the next watch stream. -/
structure NacosHub (ν : Type) where
  fleet : NacosFleet ν
  up : Bool
  nextStream : ℕ

/-- A process or the server takes a step, or the connection of the client is lost or restored. -/
inductive NacosHubOp (ε : Type)
  | fleet (l : NacosFleetLabel ε)
  | connection (up : Bool)

/-- The steps of the processes and the server. -/
def fleetLabels : DirectoryLabel ⊕ NacosHubOp ε → List (NacosFleetLabel ε)
  | .inr (.fleet l) => [l]
  | _ => []

namespace NacosHub

/-- The server as the client sees it. -/
def seen (api : NacosApi ν ε) (hub : NacosHub ν) : Nacos where
  reply := if hub.up then api.reply hub.fleet.server else fun _ => .failed
  nextStream := hub.nextStream

def act (api : NacosApi ν ε) (hub : NacosHub ν) : NacosHubOp ε → Option (NacosHub ν)
  | .fleet l => (hub.fleet.step api l).map fun fleet => { hub with fleet }
  | .connection up => some { hub with up }

def answer (api : NacosApi ν ε) (config : NacosConfig) (hub : NacosHub ν) (q : Query) :
    Option (NacosHub ν) :=
  (Nacos.answer config (hub.seen api) q).map fun reg => { hub with nextStream := reg.nextStream }

def provider (api : NacosApi ν ε) (config : NacosConfig) : Provider (NacosHub ν) (NacosHubOp ε) :=
  ⟨act api, answer api config⟩

/-- A fresh client of processes that have not registered. -/
def start (server : ν) (registries : ℕ → NacosRegistry) (diskCache : Bool) (disk : Disk) :
    Deployment (NacosHub ν) :=
  ⟨.withOptions diskCache disk, ⟨.new server registries, true, 0⟩⟩

variable {api : NacosApi ν ε} {config : NacosConfig} {server : ν} {registries : ℕ → NacosRegistry}
  {diskCache : Bool} {disk : Disk} {name : String} {list : List ServiceInstance}
  {hub hub' : NacosHub ν} {sys sys' sys₀ sys₁ : Deployment (NacosHub ν)}
  {l : DirectoryLabel ⊕ NacosHubOp ε} {w u u₀ u₁ v₁ : List (DirectoryLabel ⊕ NacosHubOp ε)}

/-! ## One whole answer -/

theorem polled_provider (api : NacosApi ν ε) (config : NacosConfig) :
    (provider api config).Polled where
  answers hub name err := by
    have herr : config.listInstances (hub.seen api).reply name ≠ .error err := by
      rw [NacosConfig.listInstances]
      split_ifs
      · split <;> simp
      · simp
    change (Nacos.answer config (hub.seen api) (.list name (.error err))).map _ = none
    rw [Nacos.answer, if_neg herr, Option.map_none]
  quiet hub stream event := rfl

theorem lists_iff : (provider api config).Lists hub name list
    ↔ config.listInstances (hub.seen api).reply name = .ok list := by
  constructor
  · rintro ⟨hub', hanswer⟩
    obtain ⟨reg, hreg, -⟩ := Option.map_eq_some_iff.mp hanswer
    by_contra hne
    rw [Nacos.answer, if_neg hne] at hreg
    cases hreg
  · intro heq
    exact ⟨_, Option.map_eq_some_iff.mpr ⟨hub.seen api, if_pos heq, rfl⟩⟩

/-- A listing is what the server lists, or nothing as long as the connection is lost. -/
theorem listed_of_lists (h : (provider api config).Lists hub name list) :
    list = [] ∨ hub.up ∧ config.listInstances (api.reply hub.fleet.server) name = .ok list := by
  rw [lists_iff, seen] at h
  cases hup : hub.up with
  | false =>
    rw [hup, NacosConfig.listInstances_of_lost (.inl rfl)] at h
    exact .inl (Except.ok.inj h).symm
  | true =>
    rw [hup] at h
    exact .inr ⟨rfl, h⟩

theorem onlyAsks_start : (start server registries diskCache disk).directory.OnlyAsks :=
  ⟨fun i name err => by simp [start, ServiceDirectory.withOptions], fun _ _ ht => by cases ht⟩

theorem not_inHand_start (list : List ServiceInstance) :
    ¬(start server registries diskCache disk).directory.InHand name list := by
  rintro (at_ | task)
  · cases at_
  · cases task

/-- **The snapshot of a service is one whole answer.**  However the steps of the processes and the
server, requests on their way, lost connections and the calls and tasks of the client interleave,
and whatever is on its disk: what the client knows of a service is nothing, or what the server
listed at one moment of the run; and what has been applied by hand since. -/
theorem polled (api : NacosApi ν ε) (config : NacosConfig) (server : ν)
    (registries : ℕ → NacosRegistry) (diskCache : Bool) (disk : Disk)
    (hrun : run (provider api config).step (start server registries diskCache disk) w = some sys)
    (name : String) :
    ∃ u m v s base, w = u ++ m ++ v
      ∧ run (provider api config).step (start server registries diskCache disk) u = some s
      ∧ (base = []
        ∨ s.registry.up ∧ config.listInstances (api.reply s.registry.fleet.server) name = .ok base)
      ∧ sys.directory.getInstances name = listAfter base (v.flatMap (byHand name)) := by
  rcases (polled_provider api config).told onlyAsks_start not_inHand_start hrun with
    ⟨-, hend⟩ | ⟨u, m, v, s, base, heq, hu, hlists | ⟨hempty, -⟩, hend⟩
  · exact ⟨[], [], w, _, [], rfl, rfl, .inl rfl, hend⟩
  · exact ⟨u, m, v, s, base, heq, hu, listed_of_lists hlists, hend⟩
  · exact ⟨u, m, v, s, base, heq, hu, .inl hempty, hend⟩

/-! ## No older than the last replacement -/

/-- The client changes neither the processes nor its connection. -/
theorem hub_of_step {l : DirectoryLabel}
    (hstep : (provider api config).step sys (.inl l) = some sys') :
    sys'.registry.fleet = sys.registry.fleet ∧ sys'.registry.up = sys.registry.up := by
  rcases Provider.registry_of_step hstep with hsame | ⟨q, hanswer⟩
  · rw [hsame]
    exact ⟨rfl, rfl⟩
  · obtain ⟨reg, -, heq⟩ := Option.map_eq_some_iff.mp hanswer
    rw [← heq]
    exact ⟨rfl, rfl⟩

theorem fleet_of_step (hstep : (provider api config).step sys l = some sys') :
    run (NacosFleet.step api) sys.registry.fleet (fleetLabels l) = some sys'.registry.fleet := by
  cases l with
  | inl l => exact congrArg some (hub_of_step hstep).1.symm
  | inr op =>
    obtain ⟨hact, -⟩ := Provider.step_inr_eq_some.mp hstep
    cases op with
    | fleet l =>
      obtain ⟨fleet, hfleet, heq⟩ := Option.map_eq_some_iff.mp hact
      rw [fleetLabels, run_singleton, hfleet, ← heq]
    | connection up =>
      have heq : { sys.registry with up } = sys'.registry := Option.some.inj hact
      rw [← heq]
      rfl

theorem mem_fleetLabels {l : NacosFleetLabel ε} :
    l ∈ w.flatMap fleetLabels ↔ .inr (.fleet l) ∈ w := by
  rw [List.mem_flatMap]
  constructor
  · rintro ⟨a, ha, hl⟩
    match a with
    | .inr (.fleet l') => exact List.mem_singleton.mp hl ▸ ha
  · exact fun hl => ⟨_, hl, List.mem_singleton_self l⟩

/-- The processes take no notice of the client. -/
theorem fleet_of_run (hrun : run (provider api config).step sys w = some sys') :
    run (NacosFleet.step api) sys.registry.fleet (w.flatMap fleetLabels)
      = some sys'.registry.fleet :=
  (run_shadow (I := fun _ => True) (C := fun _ _ => True) (fun sys => sys.registry.fleet)
    fleetLabels (fun _ _ _ _ _ hstep => ⟨trivial, fleet_of_step hstep⟩) trivial
    (eachStep_of_forall_mem fun _ _ => trivial) hrun).2

/-- The connection stays as it is. -/
def Connected (l : DirectoryLabel ⊕ NacosHubOp ε) : Prop := ∀ up, l ≠ .inr (.connection up)

theorem up_of_step (hl : Connected l) (hstep : (provider api config).step sys l = some sys') :
    sys'.registry.up = sys.registry.up := by
  cases l with
  | inl l => exact (hub_of_step hstep).2
  | inr op =>
    obtain ⟨hact, -⟩ := Provider.step_inr_eq_some.mp hstep
    cases op with
    | fleet l =>
      obtain ⟨fleet, -, heq⟩ := Option.map_eq_some_iff.mp hact
      rw [← heq]
    | connection up => exact absurd rfl (hl up)

theorem up_of_run (hw : ∀ l ∈ w, Connected l)
    (hrun : run (provider api config).step sys w = some sys') :
    sys'.registry.up = sys.registry.up :=
  invariant_run (I := fun s : Deployment (NacosHub ν) => s.registry.up = sys.registry.up)
    (C := fun _ => Connected) (fun _ _ _ h hl hstep => (up_of_step hl hstep).trans h) rfl
    (eachStep_of_forall_mem hw) hrun

/-- A run in which the client stays connected and is not shut down, from where it has no listing of
the service in hand, and in which its snapshot is replaced. -/
structure Replacing (api : NacosApi ν ε) (config : NacosConfig) (name : String)
    (sys₀ : Deployment (NacosHub ν)) (w : List (DirectoryLabel ⊕ NacosHubOp ε)) : Prop where
  free : ∀ list, ¬sys₀.directory.InHand name list
  up : sys₀.registry.up
  connected : ∀ l ∈ w, Connected l
  running : ∀ i, .inl (.call i .clear) ∉ w
  replaced : ∃ u l v s list, w = u ++ l :: v ∧ run (provider api config).step sys₀ u = some s
    ∧ s.directory.Replaces name l list

theorem Replacing.told (h : Replacing api config name sys₀ w) (hfallback : sys₀.directory.OnlyAsks)
    (hrun : run (provider api config).step sys₀ w = some sys) :
    ∃ u m v s base, w = u ++ m ++ v ∧ run (provider api config).step sys₀ u = some s
      ∧ config.listInstances (api.reply s.registry.fleet.server) name = .ok base
      ∧ sys.directory.getInstances name = listAfter base (v.flatMap (byHand name)) := by
  obtain ⟨u₁, l, v₁, s₁, list, rfl, hu₁, hreplaces⟩ := h.replaced
  obtain ⟨u, m, v, s, base, heq, hu, hlists, hend⟩ :=
    (polled_provider api config).told_since hfallback h.free hu₁ hreplaces hrun h.running
  have hup : s.registry.up = true := by
    rw [up_of_run (fun l hl => h.connected l ?_) hu]
    · exact h.up
    · rw [heq]
      exact List.mem_append_left _ (List.mem_append_left _ hl)
  refine ⟨u, m, v, s, base, heq, hu, ?_, hend⟩
  rw [lists_iff, seen, hup] at hlists
  exact hlists

/-- **What the client knows has been registered.**  Over a server that lists only what was posted to
it, an instance in the snapshot of a service has the service, group, namespace and address of an
instance that was handed to a `register` of a process that is switched on, if nothing is applied to
the service by hand. -/
theorem known_registered {filed : ν → Set NacosSite} (hhonest : api.Honest filed)
    (config : NacosConfig) (server : ν) (hempty : filed server = ∅)
    (registries : ℕ → NacosRegistry) (hfresh : ∀ j, (registries j).registeredInstance = none)
    (diskCache : Bool) (disk : Disk)
    (hrun : run (provider api config).step (start server registries diskCache disk) w = some sys)
    (name : String) (hhand : w.flatMap (byHand name) = []) {e : ServiceInstance}
    (he : e ∈ sys.directory.getInstances name) :
    NacosFleet.Registered registries
      (fun j inst => .inr (.fleet (.process j (.register inst))) ∈ w) config name e := by
  rcases (polled_provider api config).told onlyAsks_start not_inHand_start hrun with
    ⟨-, hend⟩ | ⟨u, m, v, s, base, heq, hu, hlists, hend⟩
  · rw [hhand] at hend
    rw [hend] at he
    cases he
  · rw [heq] at hhand
    simp only [List.flatMap_append, List.append_eq_nil_iff] at hhand
    rw [hhand.2] at hend
    have hsnapshot : sys.directory.getInstances name = base := hend
    rw [hsnapshot] at he
    -- the client was answered by a server that knew only of what had been registered
    have hsourced := NacosFleet.sourced_of_run hhonest hfresh hempty (fleet_of_run hu)
    have hregistered : NacosFleet.Registered registries
        (fun j inst => .process j (.register inst) ∈ u.flatMap fleetLabels) config name e := by
      rcases hlists with hlists | ⟨hempty, -⟩
      · rcases listed_of_lists hlists with hnone | ⟨-, hlist⟩
        · rw [hnone] at he
          cases he
        · exact hsourced.registered hhonest hlist he
      · rw [hempty] at he
        cases he
    obtain ⟨hitem, j, inst, hinst, hactive, hsite⟩ := hregistered
    refine ⟨hitem, j, inst, ?_, hactive, hsite⟩
    rw [heq]
    exact List.mem_append_left _ (List.mem_append_left _ (mem_fleetLabels.mp hinst))

/-! ## A client of two processes -/

open NacosFleet (order moved stock)

abbrev Label := DirectoryLabel ⊕ NacosHubOp NacosSite

/-- Process 0 registers an instance twice, at two addresses. -/
def registering : List Label :=
  [.inr (.fleet (.process 0 (.register order))), .inr (.fleet (.process 0 (.arrive 0))),
    .inr (.fleet (.process 0 (.register moved))), .inr (.fleet (.process 0 (.arrive 0)))]

/-- What Nacos lists of it. -/
def both : List ServiceInstance :=
  [NacosRegistry.localNacos.listedAs order, NacosRegistry.localNacos.listedAs moved]

/-- A client loads the service, and lists it once more to reconcile; meanwhile process 1 registers
another service. -/
def listing : List Label :=
  [.inl (.call 0 (.loadOrWatch "order-svc")), .inl (.call 0 .read), .inl (.call 0 .lock),
    .inl (.call 0 (.listed (.ok both))), .inl (.call 0 .insert), .inl (.call 0 .lock),
    .inl (.call 0 (.subscribed (.ok 0))), .inl (.task 0 .enter), .inl (.task 0 .primed),
    .inr (.fleet (.process 1 (.register stock))), .inl (.task 0 .tick),
    .inl (.task 0 (.listed (.ok both))), .inr (.fleet (.process 1 (.arrive 0)))]

def reconciling : List Label := listing ++ [.inl (.task 0 .reset)]

/-- The client loses its connection, and its snapshot with the next reconcile. -/
def losing : List Label :=
  [.inr (.connection false), .inl (.task 0 .tick), .inl (.task 0 (.listed (.ok []))),
    .inl (.task 0 .reset)]

def begun : Deployment (NacosHub NacosServer) :=
  start NacosRegistry.emptyServer (fun _ => NacosRegistry.localNacos) false ∅

abbrev localStep := (provider NacosServer.api NacosRegistry.localNacos.config).step

def registered : Deployment (NacosHub NacosServer) :=
  (run localStep begun registering).get (by decide +kernel)

def listed : Deployment (NacosHub NacosServer) :=
  (run localStep registered listing).get (by decide +kernel)

def reconciled : Deployment (NacosHub NacosServer) :=
  (run localStep registered reconciling).get (by decide +kernel)

def lost : Deployment (NacosHub NacosServer) :=
  (run localStep reconciled losing).get (by decide +kernel)

example : reconciled.directory.getInstances "order-svc" = both := by decide +kernel

/-- `polled` for the client that has lost its connection. -/
theorem polled_lost : ∃ u m v s base, registering ++ (reconciling ++ losing) = u ++ m ++ v
      ∧ run localStep begun u = some s
      ∧ (base = [] ∨ s.registry.up ∧ NacosRegistry.localNacos.config.listInstances
        (NacosServer.api.reply s.registry.fleet.server) "order-svc" = .ok base)
      ∧ lost.directory.getInstances "order-svc"
        = listAfter base (v.flatMap (byHand "order-svc")) :=
  polled _ _ _ _ false ∅ (run_append_eq_some.mpr ⟨_, (Option.some_get _).symm,
    run_append_eq_some.mpr ⟨_, (Option.some_get _).symm, (Option.some_get _).symm⟩⟩) "order-svc"

/-- `known_registered` for the client that reconciles, and its second instance. -/
theorem known_registered_moved : NacosFleet.Registered (fun _ => NacosRegistry.localNacos)
    (fun j inst => .inr (.fleet (.process j (.register inst))) ∈ registering ++ reconciling)
    NacosRegistry.localNacos.config "order-svc" (NacosRegistry.localNacos.listedAs moved) :=
  known_registered NacosServer.honest_api _ NacosRegistry.emptyServer
    (by simp [NacosServer.filed, NacosRegistry.emptyServer]) _ (fun _ => rfl) false ∅
    (run_append_eq_some.mpr ⟨registered, (Option.some_get _).symm, (Option.some_get _).symm⟩)
    "order-svc" rfl (show _ ∈ reconciled.directory.getInstances "order-svc" by decide +kernel)

end NacosHub

end PecsRegistry
