import PecsRegistry.Directory.Moves

/-!
# Provider/Nacos — a registry that answers an outage with an empty list

`list_instances` asks Nacos over HTTP.  A request that fails and a body that does not decode both
fall through to `Ok(Vec::new())`, so the directory takes an outage for a service without instances:
it stores the empty list, and has it written over the disk snapshot.  `outage_spared_iff` says in
which states that does no harm.

The HTTP exchange is a parameter: what Nacos replies to a request (`ListReply`).
-/

namespace PecsRegistry

open Transition

/-! ## The provider -/

structure NacosRegistrationConfig where
  group : String := "DEFAULT_GROUP"
deriving DecidableEq

/-- What the listing reads of the configuration. -/
structure NacosConfig where
  serverAddr : String
  «namespace» : String := "public"
  enableNaming : Bool := true
  registration : NacosRegistrationConfig := {}
deriving DecidableEq

/-- One host of a decoded list; a field the body leaves out takes its default. -/
structure NacosInstanceItem where
  ip : String
  port : UInt16
  weight : ℚ := 0
  healthy : Bool := false
  enabled : Bool := false
  metadata : HashMap String String := ∅
deriving DecidableEq

/-- A request of the instance list. -/
structure ListRequest where
  url : String
  query : List (String × String)
deriving DecidableEq

/-- What comes of a request: it fails, its body does not decode, or it lists hosts. -/
inductive ListReply
  | failed
  | undecodable
  | decoded (hosts : List NacosInstanceItem)
deriving DecidableEq

/-- The request failed, or its body did not decode. -/
def ListReply.Lost (reply : ListReply) : Prop := reply = .failed ∨ reply = .undecodable

namespace NacosConfig

/-- Naming is switched on and the address is not blank. -/
def active (config : NacosConfig) : Bool := config.enableNaming && trim config.serverAddr ≠ ""

def serverUrl (config : NacosConfig) : String :=
  let addr := trim config.serverAddr
  if "http://".toList <+: addr.toList ∨ "https://".toList <+: addr.toList then addr
  else "http://" ++ addr

def listRequest (config : NacosConfig) (serviceName : String) : ListRequest where
  url := config.serverUrl ++ "/nacos/v1/ns/instance/list"
  query := [("serviceName", serviceName), ("groupName", config.registration.group),
    ("namespaceId", config.namespace), ("healthyOnly", "true")]

/-- The instance a host stands for. -/
def instanceOf (config : NacosConfig) (serviceName : String) (h : NacosInstanceItem) :
    ServiceInstance :=
  let id := serviceName ++ "-" ++ h.ip ++ ":" ++ toString h.port
  let inst := (ServiceInstance.newHttp id config.namespace config.registration.group serviceName
    (.new h.ip h.port)).withWeight h.weight
  { inst with healthy := h.healthy, enabled := h.enabled, metadata := h.metadata }

def listInstances (config : NacosConfig) (send : ListRequest → ListReply) (serviceName : String) :
    RegistryResult (List ServiceInstance) :=
  if config.active then
    match send (config.listRequest serviceName) with
    | .decoded hosts => .ok (hosts.map (config.instanceOf serviceName))
    | .failed | .undecodable => .ok []
  else .ok []

theorem listInstances_of_lost {config : NacosConfig} {send : ListRequest → ListReply}
    {serviceName : String} (h : (send (config.listRequest serviceName)).Lost) :
    config.listInstances send serviceName = .ok [] := by
  rw [listInstances]
  split_ifs
  · rcases h with h | h <;> rw [h]
  · rfl

end NacosConfig

/-- A Nacos server as its client sees it, and the number of the next watch stream. -/
structure Nacos where
  reply : ListRequest → ListReply
  nextStream : ℕ

namespace Nacos

/-- The server changes its mind about a request. -/
def act (reg : Nacos) (op : ListRequest × ListReply) : Option Nacos :=
  some { reg with reply := Function.update reg.reply op.1 op.2 }

/-- A watch never asks Nacos: its sender is dropped at once, so the stream ends. -/
def answer (config : NacosConfig) (reg : Nacos) : Query → Option Nacos
  | .list name result => if config.listInstances reg.reply name = result then some reg else none
  | .watch _ (.ok stream) =>
      if stream = reg.nextStream then some { reg with nextStream := stream + 1 } else none
  | .watch _ (.error _) => none
  | .next _ (some _) => none
  | .next _ none => some reg

def provider (config : NacosConfig) : Provider Nacos (ListRequest × ListReply) :=
  ⟨act, answer config⟩

theorem reply_of_answer {config : NacosConfig} {reg reg' : Nacos} {q : Query}
    (h : answer config reg q = some reg') : reg'.reply = reg.reply := by
  revert h
  fun_cases answer config reg q <;> intro h <;> simp only [reduceCtorEq, Option.some.injEq] at h
  all_goals rw [← h]

/-! ## An outage under a load or a reconcile -/

variable {config : NacosConfig} {name : String} {sys sys' : Deployment Nacos}
  {d₀ d d' : ServiceDirectory} {i k : ℕ}

/-- The list a `load_or_watch` goes on with. -/
def adopted : CallState → Option (List ServiceInstance)
  | .inserting _ instances | .ensuring _ instances | .subscribing _ instances _
  | .returned (.ok instances) => some instances
  | _ => none

/-- The disk snapshot of the service is as it was, and instances in memory have not made way for an
empty list. -/
def Spares (name : String) (d d' : ServiceDirectory) : Prop :=
  d'.disk.load name = d.disk.load name ∧ (d.getInstances name ≠ [] → d'.getInstances name ≠ [])

/-- The steps of call `i`, and of the disk write that it spawns next. -/
def LoadSteps (i n : ℕ) : DirectoryLabel ⊕ (ListRequest × ListReply) → Prop
  | .inl (.call j _) => j = i
  | .inl (.persist m _) => m = n
  | _ => False

/-- The steps of the reconcile branch of task `k`, and of the disk write that it spawns next. -/
def ReconcileSteps (k n : ℕ) : DirectoryLabel ⊕ (ListRequest × ListReply) → Prop
  | .inl (.task j (.listed _)) | .inl (.task j .reset) => j = k
  | .inl (.persist m _) => m = n
  | _ => False

/-- However far call `i` gets, it spares the service; the list it goes on with is the one on
disk. -/
def LoadSpares (config : NacosConfig) (sys : Deployment Nacos) (i : ℕ) (name : String) : Prop :=
  ∀ w sys', (∀ l ∈ w, LoadSteps i sys.directory.persists.length l) →
    run (provider config).step sys w = some sys' →
      Spares name sys.directory sys'.directory
        ∧ ∀ list, adopted (sys'.directory.calls i) = some list →
          sys.directory.diskCache = true ∧ sys.directory.disk.load name = some list

/-- However far the reconcile of task `k` gets, it spares the service. -/
def ReconcileSpares (config : NacosConfig) (sys : Deployment Nacos) (k : ℕ) (name : String) :
    Prop :=
  ∀ w sys', (∀ l ∈ w, ReconcileSteps k sys.directory.persists.length l) →
    run (provider config).step sys w = some sys' →
      Spares name sys.directory sys'.directory

/-- The service is as in `d₀`, without instances, but for an empty list waiting to be written. -/
structure Hushed (d₀ : ServiceDirectory) (name : String) (d : ServiceDirectory) : Prop where
  memory : d.getInstances name = []
  disk : d.disk.load name = d₀.disk.load name
  cache : d.diskCache = d₀.diskCache
  queued : d.persists = d₀.persists
    ∨ d₀.diskCache = true ∧ d.persists = d₀.persists ++ [(name, [])]

theorem Hushed.spares (h : Hushed d₀ name d) (h₀ : d₀.getInstances name = []) :
    Spares name d₀ d := ⟨h.disk, fun hne => absurd h₀ hne⟩

/-- The empty list is written over an empty disk snapshot. -/
theorem Hushed.persist (h : Hushed d₀ name d)
    (hempty : d₀.diskCache = true → d₀.disk.load name = some []) {written : Bool}
    (hstep : d.step (.persist d₀.persists.length written) = some d') :
    Hushed d₀ name d' ∧ d'.calls = d.calls ∧ d'.tasks = d.tasks ∧ d.persists ≠ d₀.persists := by
  cases ServiceDirectory.move_of_step hstep with
  | persist written pending =>
    rcases h.queued with hq | ⟨hcache, hq⟩
    · simp [hq] at pending
    · obtain ⟨rfl, rfl⟩ : _ ∧ _ := by simpa [hq] using pending
      have herase : (d₀.persists ++ [(name, [])]).eraseIdx d₀.persists.length = d₀.persists := by
        rw [List.eraseIdx_append_of_length_le le_rfl]
        simp
      refine ⟨⟨h.memory, ?_, h.cache, .inl (by simp only [hq, herase])⟩, rfl, rfl, ?_⟩
      · cases written
        · exact h.disk
        · simp only [if_true]
          rw [Disk.load_write, if_pos rfl]
          exact (hempty hcache).symm
      · simp [hq]

/-- A listing without instances is queued for the disk. -/
theorem Hushed.persistToDisk (h : Hushed d₀ name d) (hq : d.persists = d₀.persists) :
    Hushed d₀ name (d.persistToDisk name []) := by
  refine ⟨h.memory, h.disk, h.cache, ?_⟩
  rw [ServiceDirectory.persistToDisk_persists, h.cache, hq]
  split_ifs with hcache
  · exact .inr ⟨hcache, rfl⟩
  · exact .inl rfl

theorem Hushed.store (h : Hushed d₀ name d) : Hushed d₀ name (d.store name []) :=
  ⟨by rw [ServiceDirectory.getInstances_store, if_pos rfl], h.disk, h.cache, h.queued⟩

/-- While Nacos is out, every listing is empty. -/
theorem listed_of_lost {reg reg' : Nacos} (hlost : (reg.reply (config.listRequest name)).Lost)
    {result : RegistryResult (List ServiceInstance)}
    (h : (provider config).reply reg (some (.list name result)) = some reg') : result = .ok [] := by
  have hanswer : (if config.listInstances reg.reply name = result then some reg else none)
      = some reg' := h
  split_ifs at hanswer with heq
  rw [← heq, NacosConfig.listInstances_of_lost hlost]

/-- The directory's steps leave the outage as it is. -/
theorem reply_of_step {l : DirectoryLabel} (h : (provider config).step sys (.inl l) = some sys') :
    sys'.registry.reply = sys.registry.reply := by
  rcases Provider.registry_of_step h with hsame | ⟨q, hanswer⟩
  · rw [hsame]
  · exact reply_of_answer hanswer

/-- The call goes on with no instances. -/
def Adopting (name : String) : CallState → Prop
  | .inserting name' instances | .ensuring name' instances | .subscribing name' instances _ =>
      name' = name ∧ instances = []
  | .returned (.ok instances) => instances = []
  | _ => False

theorem Adopting.adopted {s : CallState} (h : Adopting name s) : adopted s = some [] := by
  cases s with
  | inserting name' instances => rw [Nacos.adopted, h.2]
  | ensuring name' instances => rw [Nacos.adopted, h.2]
  | subscribing name' instances token => rw [Nacos.adopted, h.2]
  | returned result =>
    cases result with
    | ok instances => exact congrArg some h
    | error err => exact h.elim
  | _ => exact h.elim

theorem Adopting.callMove (h : Adopting name (d.calls i)) (hd : Hushed d₀ name d) {l : CallLabel}
    (move : ServiceDirectory.CallMove d i l d') :
    Hushed d₀ name d' ∧ Adopting name (d'.calls i) := by
  cases move with
  | insert at_ =>
    rw [at_] at h
    obtain ⟨rfl, rfl⟩ := h
    exact ⟨{ hd.store with }, by simp [Adopting]⟩
  | ensured at_ free watched =>
    rw [at_] at h
    exact ⟨{ hd with }, by simp [Adopting, h.2]⟩
  | enrol at_ free unwatched =>
    rw [at_] at h
    exact ⟨{ hd with }, by simpa [Adopting] using h⟩
  | subscribed result at_ =>
    rw [at_] at h
    exact ⟨{ hd with }, by simp [Adopting, h.2]⟩
  | _ => exact absurd h (by simp [*, Adopting])

/-- A call that awaits its listing. -/
theorem callMove_of_listing (hat : d.calls i = .listing name) {l : CallLabel}
    (move : ServiceDirectory.CallMove d i l d') :
    (∃ instances, l = .listed (.ok instances)
        ∧ d' = (d.persistToDisk name instances).setCall i (.inserting name instances))
      ∨ ∃ err, l = .listed (.error err) := by
  cases move with
  | listed instances at_ =>
    obtain rfl := CallState.listing.inj (hat.symm.trans at_)
    exact .inl ⟨instances, rfl, rfl⟩
  | listFailed err at_ => exact .inr ⟨err, rfl⟩
  | _ => simp [*] at hat

/-- A `load_or_watch` in an outage: before its listing, or going on with nothing. -/
structure Loading (config : NacosConfig) (d₀ : ServiceDirectory) (i : ℕ) (name : String)
    (sys : Deployment Nacos) : Prop where
  lost : (sys.registry.reply (config.listRequest name)).Lost
  hushed : Hushed d₀ name sys.directory
  phase : sys.directory.calls i = .listing name ∧ sys.directory.persists = d₀.persists
    ∨ Adopting name (sys.directory.calls i)

theorem Loading.step (h : Loading config d₀ i name sys)
    (hempty : d₀.diskCache = true → d₀.disk.load name = some [])
    {l : DirectoryLabel ⊕ (ListRequest × ListReply)} (hl : LoadSteps i d₀.persists.length l)
    (hstep : (provider config).step sys l = some sys') : Loading config d₀ i name sys' := by
  rcases l with l | op
  · have hlost : (sys'.registry.reply (config.listRequest name)).Lost := by
      rw [reply_of_step hstep]
      exact h.lost
    obtain ⟨hreply, hdir⟩ := Provider.step_inl_eq_some.mp hstep
    cases l with
    | call j l =>
      obtain rfl : j = i := hl
      have move := ServiceDirectory.callMove_of_callStep hdir
      rcases h.phase with ⟨hat, hq⟩ | hadopt
      · simp only [ServiceDirectory.query, hat] at hreply
        rcases callMove_of_listing hat move with ⟨instances, rfl, hd'⟩ | ⟨err, rfl⟩
        · obtain rfl := Except.ok.inj (listed_of_lost h.lost hreply)
          refine ⟨hlost, ?_, .inr ?_⟩ <;> rw [hd']
          · exact { h.hushed.persistToDisk hq with }
          · simp [Adopting]
        · exact absurd (listed_of_lost h.lost hreply) (by simp)
      · obtain ⟨hushed, hadopt⟩ := hadopt.callMove h.hushed move
        exact ⟨hlost, hushed, .inr hadopt⟩
    | persist m written =>
      obtain rfl : m = d₀.persists.length := hl
      obtain ⟨hushed, hcalls, -, hpending⟩ := h.hushed.persist hempty hdir
      refine ⟨hlost, hushed, .inr ?_⟩
      rw [hcalls]
      exact h.phase.resolve_left fun hlisting => hpending hlisting.2
    | _ => exact hl.elim
  · exact hl.elim

/-- A reconcile in an outage: before its listing, about to reset the service to nothing, or done. -/
structure Reconciling (config : NacosConfig) (d₀ : ServiceDirectory) (k : ℕ) (name : String)
    (sys : Deployment Nacos) : Prop where
  lost : (sys.registry.reply (config.listRequest name)).Lost
  hushed : Hushed d₀ name sys.directory
  phase : ∃ t stream, sys.directory.tasks k = some t ∧ t.name = name
    ∧ (t.state = .selecting stream ∨ sys.directory.persists = d₀.persists
      ∧ (t.state = .reconciling stream ∨ t.state = .resetting stream []))

theorem taskMove_listed {t : WatchTask} {latest : List ServiceInstance}
    (move : ServiceDirectory.TaskMove d k t (.listed (.ok latest)) d') :
    ∃ stream, t.state = .reconciling stream
      ∧ d' = d.setTask k { t with state := .resetting stream latest } := by
  cases move with
  | listed latest at_ => exact ⟨_, at_, rfl⟩

theorem taskMove_reset {t : WatchTask} (move : ServiceDirectory.TaskMove d k t .reset d') :
    ∃ stream latest, t.state = .resetting stream latest
      ∧ d' = (d.applyEvent t.name (.reset latest)).setTask k
        { t with state := .selecting stream } := by
  cases move with
  | reset at_ => exact ⟨_, _, at_, rfl⟩

theorem Reconciling.step (h : Reconciling config d₀ k name sys)
    (hempty : d₀.diskCache = true → d₀.disk.load name = some [])
    {l : DirectoryLabel ⊕ (ListRequest × ListReply)} (hl : ReconcileSteps k d₀.persists.length l)
    (hstep : (provider config).step sys l = some sys') : Reconciling config d₀ k name sys' := by
  rcases l with l | op
  · have hlost : (sys'.registry.reply (config.listRequest name)).Lost := by
      rw [reply_of_step hstep]
      exact h.lost
    obtain ⟨hreply, hdir⟩ := Provider.step_inl_eq_some.mp hstep
    obtain ⟨t, stream, ht, rfl, hphase⟩ := h.phase
    cases l with
    | task j l =>
      have hmove : j = k → ServiceDirectory.TaskMove sys.directory k t l sys'.directory := by
        rintro rfl
        obtain ⟨t', ht', htask⟩ := Option.bind_eq_some_iff.mp hdir
        obtain rfl := Option.some.inj (ht.symm.trans ht')
        exact ServiceDirectory.taskMove_of_taskStep htask
      cases l with
      | listed result =>
        obtain rfl : j = k := hl
        simp only [ServiceDirectory.query, ht, Option.bind_some, WatchTask.query] at hreply
        obtain rfl := listed_of_lost h.lost hreply
        obtain ⟨stream', hat, hd'⟩ := taskMove_listed (hmove rfl)
        have hq := (hphase.resolve_left (by simp [hat])).1
        refine ⟨hlost, ?_, { t with state := .resetting stream' [] }, stream', ?_, rfl,
          .inr ⟨?_, .inr rfl⟩⟩ <;> rw [hd']
        · exact { h.hushed with }
        · simp
        · exact hq
      | reset =>
        obtain rfl : j = k := hl
        obtain ⟨stream', latest, hat, hd'⟩ := taskMove_reset (hmove rfl)
        obtain ⟨hq, hlatest⟩ := hphase.resolve_left (by simp [hat])
        obtain ⟨-, rfl⟩ : _ ∧ latest = [] := by simpa [hat] using hlatest
        refine ⟨hlost, ?_, { t with state := .selecting stream' }, stream', ?_, rfl,
          .inl rfl⟩ <;> rw [hd']
        · exact { h.hushed.store.persistToDisk hq with }
        · simp
      | _ => exact hl.elim
    | persist m written =>
      obtain rfl : m = d₀.persists.length := hl
      obtain ⟨hushed, -, htasks, hpending⟩ := h.hushed.persist hempty hdir
      refine ⟨hlost, hushed, t, stream, by rw [htasks, ht], rfl, .inl ?_⟩
      exact hphase.resolve_right fun hbefore => hpending hbefore.1
    | _ => exact hl.elim
  · exact hl.elim

/-! ## Exactly when an outage does no harm -/

theorem reply_of_lost {reg : Nacos} (hlost : (reg.reply (config.listRequest name)).Lost) :
    (provider config).reply reg (some (.list name (.ok []))) = some reg :=
  if_pos (NacosConfig.listInstances_of_lost hlost)

/-- The load takes its empty listing, -/
theorem step_load (hlost : (sys.registry.reply (config.listRequest name)).Lost)
    (hat : sys.directory.calls i = .listing name) :
    (provider config).step sys (.inl (.call i (.listed (.ok [])))) = some
      ⟨(sys.directory.persistToDisk name []).setCall i (.inserting name []), sys.registry⟩ := by
  refine Provider.step_inl_eq_some.mpr ⟨?_, ?_⟩
  · simp only [ServiceDirectory.query, hat]
    exact reply_of_lost hlost
  · simp only [ServiceDirectory.step, hat]
    rfl

/-- …and stores it. -/
theorem run_load (hlost : (sys.registry.reply (config.listRequest name)).Lost)
    (hat : sys.directory.calls i = .listing name) :
    ∃ d', run (provider config).step sys [.inl (.call i (.listed (.ok []))), .inl (.call i .insert)]
        = some ⟨d', sys.registry⟩ ∧ d'.getInstances name = [] := by
  set d₁ := (sys.directory.persistToDisk name []).setCall i (.inserting name []) with hd₁
  have hat₁ : d₁.calls i = .inserting name [] := by simp [hd₁]
  have hinsert : (provider config).step ⟨d₁, sys.registry⟩ (.inl (.call i .insert))
      = some ⟨(d₁.store name []).setCall i (.ensuring name []), sys.registry⟩ := by
    refine Provider.step_inl_eq_some.mpr ⟨?_, ?_⟩
    · simp only [ServiceDirectory.query, hat₁]
      rfl
    · simp only [ServiceDirectory.step, hat₁]
      rfl
  refine ⟨_, run_cons_eq_some.mpr
    ⟨_, step_load hlost hat, run_cons_eq_some.mpr ⟨_, hinsert, rfl⟩⟩, ?_⟩
  exact (d₁.getInstances_store name name []).trans (if_pos rfl)

/-- The reconcile takes its empty listing, and resets the service to it. -/
theorem run_reconcile (hlost : (sys.registry.reply (config.listRequest name)).Lost) {t : WatchTask}
    {stream : ℕ} (ht : sys.directory.tasks k = some t) (hname : t.name = name)
    (hat : t.state = .reconciling stream) :
    ∃ d', run (provider config).step sys [.inl (.task k (.listed (.ok []))), .inl (.task k .reset)]
        = some ⟨d', sys.registry⟩
      ∧ d'.getInstances name = [] ∧ d'.disk = sys.directory.disk
      ∧ d'.persists = (sys.directory.persistToDisk name []).persists := by
  subst hname
  set d₁ := sys.directory.setTask k { t with state := .resetting stream [] } with hd₁
  have hlisted : (provider config).step sys (.inl (.task k (.listed (.ok []))))
      = some ⟨d₁, sys.registry⟩ := by
    refine Provider.step_inl_eq_some.mpr ⟨?_, ?_⟩
    · simp only [ServiceDirectory.query, ht, Option.bind_some, WatchTask.query]
      exact reply_of_lost hlost
    · simp only [ServiceDirectory.step, ht, Option.bind_some, hat]
      rfl
  have ht₁ : d₁.tasks k = some { t with state := .resetting stream [] } := by simp [hd₁]
  have hreset : (provider config).step ⟨d₁, sys.registry⟩ (.inl (.task k .reset)) = some
      ⟨(d₁.applyEvent t.name (.reset [])).setTask k { t with state := .selecting stream },
        sys.registry⟩ := by
    refine Provider.step_inl_eq_some.mpr ⟨?_, ?_⟩
    · simp only [ServiceDirectory.query, ht₁, Option.bind_some, WatchTask.query]
      rfl
    · simp only [ServiceDirectory.step, ht₁, Option.bind_some]
      rfl
  refine ⟨_, run_cons_eq_some.mpr ⟨_, hlisted, run_cons_eq_some.mpr ⟨_, hreset, rfl⟩⟩, ?_, rfl, rfl⟩
  exact (d₁.getInstances_applyEvent t.name t.name (.reset [])).trans (if_pos rfl)

/-- **A load in an outage spares the service, exactly**, when there is nothing to spare: no instance
in memory, and an empty disk snapshot to go on with. -/
theorem loadSpares_iff (hlost : (sys.registry.reply (config.listRequest name)).Lost)
    (hat : sys.directory.calls i = .listing name) :
    LoadSpares config sys i name ↔ sys.directory.diskCache = true
      ∧ sys.directory.disk.load name = some [] ∧ sys.directory.getInstances name = [] := by
  constructor
  · intro h
    obtain ⟨-, hadopted⟩ := h [.inl (.call i (.listed (.ok [])))] _ (by simp [LoadSteps])
      (run_cons_eq_some.mpr ⟨_, step_load hlost hat, rfl⟩)
    obtain ⟨hcache, hdisk⟩ := hadopted [] (by simp [adopted])
    obtain ⟨d', hrun, hnone⟩ := run_load hlost hat
    obtain ⟨⟨-, hmemory⟩, -⟩ := h _ _ (by simp [LoadSteps]) hrun
    exact ⟨hcache, hdisk, by_contra fun hne => hmemory hne hnone⟩
  · rintro ⟨hcache, hdisk, hmemory⟩ w sys' hw hrun
    have hinit : Loading config sys.directory i name sys :=
      ⟨hlost, ⟨hmemory, rfl, rfl, .inl rfl⟩, .inl ⟨hat, rfl⟩⟩
    have hend := invariant_run (fun _ _ _ h hl hstep => h.step (fun _ => hdisk) hl hstep) hinit
      (eachStep_of_forall_mem hw) hrun
    refine ⟨hend.hushed.spares hmemory, fun list hlist => ⟨hcache, ?_⟩⟩
    rcases hend.phase with ⟨hlisting, -⟩ | hadopt
    · simp [hlisting, adopted] at hlist
    · rw [hdisk, ← hlist, hadopt.adopted]

/-- **A reconcile in an outage spares the service, exactly**, when it has no instance in memory nor
on disk. -/
theorem reconcileSpares_iff (hlost : (sys.registry.reply (config.listRequest name)).Lost)
    {t : WatchTask} {stream : ℕ} (ht : sys.directory.tasks k = some t) (hname : t.name = name)
    (hat : t.state = .reconciling stream) :
    ReconcileSpares config sys k name ↔ sys.directory.getInstances name = []
      ∧ (sys.directory.diskCache = true → sys.directory.disk.load name = some []) := by
  constructor
  · intro h
    obtain ⟨d', hrun, hnone, hdisk, hpersists⟩ := run_reconcile hlost ht hname hat
    refine ⟨by_contra fun hne => (h _ _ (by simp [ReconcileSteps]) hrun).2 hne hnone,
      fun hcache => ?_⟩
    have hpending : d'.persists[sys.directory.persists.length]? = some (name, []) := by
      simp [hpersists, hcache]
    have hwrite : (provider config).step ⟨d', sys.registry⟩
        (.inl (.persist sys.directory.persists.length true)) = some
          ⟨{ d' with
            persists := d'.persists.eraseIdx sys.directory.persists.length
            disk := d'.disk.write name [] }, sys.registry⟩ := by
      refine Provider.step_inl_eq_some.mpr ⟨rfl, ?_⟩
      simp only [ServiceDirectory.step, hpending]
      rfl
    have hkept := (h (_ ++ [_]) _ (by simp [ReconcileSteps])
      (run_append_eq_some.mpr ⟨_, hrun, run_cons_eq_some.mpr ⟨_, hwrite, rfl⟩⟩)).1
    rw [← hkept, Disk.load_write, if_pos rfl]
    rfl
  · rintro ⟨hmemory, hempty⟩ w sys' hw hrun
    have hinit : Reconciling config sys.directory k name sys :=
      ⟨hlost, ⟨hmemory, rfl, rfl, .inl rfl⟩, t, stream, ht, hname, .inr ⟨rfl, .inl hat⟩⟩
    exact (invariant_run (fun _ _ _ h hl hstep => h.step hempty hl hstep) hinit
      (eachStep_of_forall_mem hw) hrun).hushed.spares hmemory

/-- **An outage spares a service, exactly**, when there is nothing to spare: a load needs an empty
disk snapshot to go on with, a reconcile only must not find another one, and neither may find
instances in memory. -/
theorem outage_spared_iff (config : NacosConfig) (sys : Deployment Nacos) (name : String)
    (hlost : (sys.registry.reply (config.listRequest name)).Lost) :
    (∀ i, sys.directory.calls i = .listing name →
      (LoadSpares config sys i name ↔ sys.directory.diskCache = true
        ∧ sys.directory.disk.load name = some [] ∧ sys.directory.getInstances name = []))
    ∧ ∀ k t stream, sys.directory.tasks k = some t → t.name = name →
      t.state = .reconciling stream →
      (ReconcileSpares config sys k name ↔ sys.directory.getInstances name = []
        ∧ (sys.directory.diskCache = true → sys.directory.disk.load name = some [])) :=
  ⟨fun _ => loadSpares_iff hlost, fun _ _ _ => reconcileSpares_iff hlost⟩

/-- A Nacos that answers nothing. -/
def down : Nacos := ⟨fun _ => .failed, 0⟩

/-- A directory restarted over a disk snapshot, whose first `load_or_watch` awaits its listing. -/
def restarted (saved : List ServiceInstance) : ServiceDirectory :=
  (ServiceDirectory.withOptions true
    ⟨some, (∅ : HashMap String _).insert "order-svc" saved⟩).setCall 0 (.listing "order-svc")

theorem outage_spared_iff_restarted :
    LoadSpares { serverAddr := "127.0.0.1:8848" } ⟨restarted [], down⟩ 0 "order-svc" :=
  ((outage_spared_iff { serverAddr := "127.0.0.1:8848" } ⟨restarted [], down⟩ "order-svc"
    (.inl rfl)).1 0 (by simp [restarted])).mpr (by decide +kernel)

/-- **A snapshot erased.**  A process restarts while Nacos is down: its disk snapshot lists an
instance, and `load_or_watch` answers that there is none, and overwrites it. -/
theorem snapshot_erased : ¬ ∀ config : NacosConfig, config.active = true →
    ∀ (sys : Deployment Nacos) name, (sys.registry.reply (config.listRequest name)).Lost →
      (∀ i, sys.directory.calls i = .listing name → LoadSpares config sys i name)
      ∧ ∀ k t stream, sys.directory.tasks k = some t → t.name = name →
        t.state = .reconciling stream → ReconcileSpares config sys k name := by
  intro h
  have hload := (h { serverAddr := "127.0.0.1:8848" } (by decide +kernel)
    ⟨restarted [.simple "order-svc" "127.0.0.1" 8080], down⟩ "order-svc" (.inl rfl)).1 0
    (by simp [restarted])
  have hdisk := ((loadSpares_iff (.inl rfl) (by simp [restarted])).mp hload).2.1
  exact absurd hdisk (by decide +kernel)

end Nacos

end PecsRegistry
