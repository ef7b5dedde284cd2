import PecsRegistry.Directory.CancelSafety
import PecsRegistry.Directory.SelfHealing

/-!
# Directory/FirstLoad — a first `load_or_watch`, and the updates it can miss

The first `load_or_watch` of a service lists the registry, inserts the snapshot, and subscribes.
Updates between the listing and the subscription are in neither: `converges_iff` says that the
drained snapshot equals the registry's map, all along a run, if and only if the map is at the
subscription what the listing read.
-/

namespace PecsRegistry

open Transition Writes

namespace LocalRegistry

variable {name : String} {i k r : ℕ} {sys sys' : Deployment LocalRegistry}
  {w : List (DirectoryLabel ⊕ LocalOp)}

/-- The steps of one `load_or_watch`, of the watch task it spawns (but no reconcile), of the disk
writers, and of others that add and remove instances of the service. -/
def FirstLoad (name : String) (i k : ℕ) : DirectoryLabel ⊕ LocalOp → Prop
  | .inl (.call j (.loadOrWatch svc)) => j = i ∧ svc = name
  | .inl (.call _ (.unwatch _)) | .inl (.call _ .shutdown) => False
  | .inl (.call j _) => j = i
  | .inl (.task k' l) => k' = k ∧ l ≠ .tick
  | .inl (.persist _ _) => True
  | .inr (.addInstance inst) => inst.name = name
  | .inr (.removeInstance svc _) => svc = name
  | .inr (.skip _) => True
  | _ => False

/-- The service has no snapshot and no watcher, and call `i` is still to be made. -/
structure Unloaded (name : String) (i : ℕ) (d : ServiceDirectory) : Prop where
  guarded : d.Guarded
  idle : d.calls i = .idle
  snapshot : name ∉ d.snapshots
  watcher : name ∉ d.activeWatches

/-- Once the call has returned and the stream is drained, the snapshot is the registry's map. -/
def Converged (name : String) (i k : ℕ) (sys : Deployment LocalRegistry) : Prop :=
  (∃ instances, sys.directory.calls i = .returned (.ok instances)) → Drained k sys →
    byId (sys.directory.getInstances name) = sys.registry.view name

/-- If the step is the call's subscription, the registry's map is what the call has listed. -/
def SubscribesUnchanged (name : String) (i : ℕ) (sys : Deployment LocalRegistry)
    (l : DirectoryLabel ⊕ LocalOp) : Prop :=
  l = .inl (.call i (.subscribed (.ok sys.registry.receivers.length))) →
    ∀ instances token, sys.directory.calls i = .subscribing name instances token →
      byId instances = sys.registry.view name

/-! ## Before the subscription -/

/-- How far the call has come, before it subscribes. -/
def Stage (name : String) (d : ServiceDirectory) : CallState → Prop
  | .idle => name ∉ d.activeWatches ∧ name ∉ d.snapshots
  | .starting svc => svc = name ∧ name ∉ d.activeWatches ∧ name ∉ d.snapshots
  | .checking svc existing => svc = name ∧ name ∉ d.activeWatches ∧ existing = none
  | .listing svc => svc = name ∧ name ∉ d.activeWatches
  | .inserting svc _ => svc = name ∧ name ∉ d.activeWatches
  | .ensuring svc instances =>
      svc = name ∧ name ∉ d.activeWatches ∧ d.getInstances name = instances
  | .subscribing svc instances _ => svc = name ∧ d.getInstances name = instances
  | _ => False

structure Loading (name : String) (i k r : ℕ) (sys : Deployment LocalRegistry) : Prop where
  stage : Stage name sys.directory (sys.directory.calls i)
  next : sys.directory.nextTask = k
  unspawned : sys.directory.tasks k = none
  receivers : sys.registry.receivers.length = r

theorem Unloaded.loading (h : Unloaded name i sys.directory) :
    Loading name i sys.directory.nextTask sys.registry.receivers.length sys := by
  refine ⟨?_, rfl, ?_, rfl⟩
  · rw [h.idle]
    exact ⟨h.watcher, h.snapshot⟩
  · exact Option.eq_none_iff_forall_ne_some.mpr fun t ht => (h.guarded.held _ t ht).2.false

/-- What the subscription of the call makes of the whole. -/
def subscribe (name : String) (i : ℕ) (instances : List ServiceInstance) (token : ℕ)
    (sys : Deployment LocalRegistry) : Deployment LocalRegistry where
  directory := (sys.directory.spawnWatch name token
    (some sys.registry.receivers.length)).unlock.setCall i (.returned (.ok instances))
  registry := { sys.registry with receivers := sys.registry.receivers ++ [⟨name, [], 0⟩] }

theorem step_subscribe {instances : List ServiceInstance} {token : ℕ}
    (hat : sys.directory.calls i = .subscribing name instances token) :
    provider.step sys (.inl (.call i (.subscribed (.ok sys.registry.receivers.length))))
      = some (subscribe name i instances token sys) := by
  simp only [Provider.step, ServiceDirectory.query, hat, CallState.query, Provider.reply, provider,
    answer, if_true, Option.bind_some, ServiceDirectory.step, ServiceDirectory.callStep,
    Option.map_some]
  rfl

/-- An operation on the registry keeps its number of receivers. -/
theorem length_receivers_of_act {reg reg' : LocalRegistry} {op : LocalOp}
    (h : reg.act op = some reg') : reg'.receivers.length = reg.receivers.length := by
  cases op with
  | addInstance inst =>
    obtain rfl := Option.some.inj h
    exact List.length_map _
  | removeInstance svc id =>
    obtain rfl := Option.some.inj h
    exact List.length_map _
  | clear =>
    obtain rfl := Option.some.inj h
    rfl
  | skip stream =>
    obtain ⟨_, _, _, _, _, _, rfl⟩ := poll_none (act_skip h)
    exact List.length_set

/-- The call goes on to another stage; the registry is not changed. -/
theorem Loading.setCall (h : Loading name i k r sys) {d : ServiceDirectory} {s : CallState}
    (hstage : Stage name d s) (hnext : d.nextTask = sys.directory.nextTask)
    (htasks : d.tasks = sys.directory.tasks) :
    Loading name i k r ⟨d.setCall i s, sys.registry⟩ := by
  refine ⟨?_, hnext.trans h.next, htasks ▸ h.unspawned, h.receivers⟩
  change Stage name (d.setCall i s) ((d.setCall i s).calls i)
  rw [ServiceDirectory.setCall_calls, Function.update_self]
  cases s <;> exact hstage

/-- **The load goes on until it subscribes.** -/
theorem Loading.call (h : Loading name i k r sys) {l : CallLabel}
    (hl : FirstLoad name i k (.inl (.call i l)))
    (hstep : provider.step sys (.inl (.call i l)) = some sys') :
    Loading name i k r sys' ∨ ∃ instances token,
      sys.directory.calls i = .subscribing name instances token
        ∧ l = .subscribed (.ok sys.registry.receivers.length)
        ∧ sys' = subscribe name i instances token sys := by
  obtain ⟨d', reg'⟩ := sys'
  obtain ⟨hreply, hdir⟩ := Provider.step_inl_eq_some.mp hstep
  have hstage := h.stage
  have move : ServiceDirectory.CallMove sys.directory i l d' := by
    cases ServiceDirectory.move_of_step hdir with
    | call move => exact move
  replace hreply :
      provider.reply sys.registry ((sys.directory.calls i).query l) = some reg' := hreply
  cases move with
  | loadOrWatch svc at_ =>
    rw [at_] at hreply hstage
    obtain rfl := Option.some.inj hreply
    exact .inl (h.setCall ⟨hl.2, hstage⟩ rfl rfl)
  | unwatch => exact hl.elim
  | shutdown => exact hl.elim
  | read at_ =>
    rw [at_] at hreply hstage
    obtain rfl := Option.some.inj hreply
    obtain ⟨rfl, hwatch, hsnap⟩ := hstage
    exact .inl (h.setCall ⟨rfl, hwatch, Finmap.lookup_eq_none.mpr hsnap⟩ rfl rfl)
  | fastPath at_ =>
    rw [at_] at hstage
    exact absurd hstage.2.2 (by simp)
  | slowPath at_ =>
    rw [at_] at hreply hstage
    obtain rfl := Option.some.inj hreply
    exact .inl (h.setCall ⟨hstage.1, hstage.2.1⟩ rfl rfl)
  | listed instances at_ =>
    rw [at_] at hreply hstage
    have hlist : (if (svcMap sys.registry.store.map _).Values instances then some sys.registry
        else none) = some reg' := hreply
    split_ifs at hlist
    obtain rfl := Option.some.inj hlist
    exact .inl (h.setCall (d := sys.directory.persistToDisk _ instances) hstage rfl rfl)
  | listFailed err at_ =>
    rw [at_] at hreply
    simp [CallState.query, Provider.reply, provider, answer] at hreply
  | @insert svc instances at_ =>
    rw [at_] at hreply hstage
    obtain rfl := Option.some.inj hreply
    obtain ⟨rfl, hwatch⟩ := hstage
    refine .inl (h.setCall (d := sys.directory.store svc instances) ⟨rfl, hwatch, ?_⟩ rfl rfl)
    rw [ServiceDirectory.getInstances_store, if_pos rfl]
  | ensured at_ free watched =>
    rw [at_] at hstage
    exact absurd (hstage.1 ▸ watched) hstage.2.1
  | enrol at_ =>
    rw [at_] at hreply hstage
    obtain rfl := Option.some.inj hreply
    exact .inl (h.setCall (d := (sys.directory.enrol _).lock i) ⟨hstage.1, hstage.2.2⟩ rfl rfl)
  | @subscribed svc instances token result at_ =>
    rw [at_] at hreply hstage
    obtain ⟨rfl, -⟩ := hstage
    cases result with
    | error err => simp [CallState.query, Provider.reply, provider, answer] at hreply
    | ok stream =>
      have hwatch : (if stream = sys.registry.receivers.length then some { sys.registry with
          receivers := sys.registry.receivers ++ [⟨svc, [], 0⟩] } else none) = some reg' := hreply
      split_ifs at hwatch with hstream
      obtain rfl := Option.some.inj hwatch
      exact .inr ⟨instances, token, at_, by rw [hstream], by rw [hstream]; rfl⟩
  | recovered at_ | recoverFailed at_ | unfile at_ | unfiled at_ | cancel at_ | drain at_
  | cancelOne at_ | clear at_ =>
    -- not a stage of the load
    rw [at_] at hstage
    exact hstage.elim

theorem Loading.step (h : Loading name i k r sys) {l : DirectoryLabel ⊕ LocalOp}
    (hl : FirstLoad name i k l) (hstep : provider.step sys l = some sys') :
    Loading name i k r sys' ∨ ∃ instances token,
      sys.directory.calls i = .subscribing name instances token
        ∧ l = .inl (.call i (.subscribed (.ok sys.registry.receivers.length)))
        ∧ sys' = subscribe name i instances token sys := by
  match l with
  | .inr op =>
    obtain ⟨hact, hdir⟩ := Provider.step_inr_eq_some.mp hstep
    exact .inl ⟨hdir ▸ h.stage, hdir ▸ h.next, hdir ▸ h.unspawned,
      (length_receivers_of_act hact).trans h.receivers⟩
  | .inl (.task k' l) =>
    obtain ⟨rfl, -⟩ := hl
    obtain ⟨-, hdir⟩ := Provider.step_inl_eq_some.mp hstep
    simp [ServiceDirectory.step, h.unspawned] at hdir
  | .inl (.persist n written) =>
    obtain ⟨d', reg'⟩ := sys'
    obtain ⟨hreply, hdir⟩ := Provider.step_inl_eq_some.mp hstep
    obtain rfl : sys.registry = reg' := Option.some.inj hreply
    cases ServiceDirectory.move_of_step hdir with
    | persist written pending => exact .inl ⟨h.stage, h.next, h.unspawned, h.receivers⟩
  | .inl (.call j l) =>
    obtain rfl : j = i := by
      cases l <;> first | exact hl | exact hl.1 | exact hl.elim
    rcases h.call hl hstep with hload | ⟨instances, token, hat, hlabel, heq⟩
    · exact .inl hload
    · exact .inr ⟨instances, token, hat, by rw [hlabel], heq⟩

/-! ## After the subscription -/

/-- The call has returned. -/
def Returned (i : ℕ) (sys : Deployment LocalRegistry) : Prop :=
  ∃ instances, sys.directory.calls i = .returned (.ok instances)

/-- A returned call makes no further step; whatever else happens leaves it returned. -/
theorem Returned.step (h : Returned i sys) {l : DirectoryLabel ⊕ LocalOp}
    (hl : FirstLoad name i k l) (hstep : provider.step sys l = some sys') :
    Returned i sys' ∧ Updating k l := by
  obtain ⟨instances, hret⟩ := h
  match l with
  | .inr op =>
    obtain ⟨-, hdir⟩ := Provider.step_inr_eq_some.mp hstep
    refine ⟨⟨instances, hdir ▸ hret⟩, trivial, ?_⟩
    rintro ⟨⟩
    exact hl
  | .inl (.task k' l) =>
    obtain ⟨hreply, hdir⟩ := Provider.step_inl_eq_some.mp hstep
    cases ServiceDirectory.move_of_step hdir with
    | @task _ t _ _ ht move =>
      obtain ⟨-, -, -, -, -, -, -, -, -, hcalls, -⟩ := move.frame
      refine ⟨⟨instances, hcalls ▸ hret⟩, ⟨hl.1, ?_⟩, by simp⟩
      -- a local stream does not end
      rintro rfl
      cases hs : t.state with
      | selecting stream =>
        simp [ServiceDirectory.query, ht, WatchTask.query, hs, Provider.reply, provider, answer]
          at hreply
      | _ => simp [ServiceDirectory.step, ht, hs, ServiceDirectory.taskStep] at hdir
  | .inl (.persist n written) =>
    obtain ⟨d', reg'⟩ := sys'
    obtain ⟨-, hdir⟩ := Provider.step_inl_eq_some.mp hstep
    cases ServiceDirectory.move_of_step hdir with
    | persist written pending => exact ⟨⟨instances, hret⟩, trivial, by simp⟩
  | .inl (.call j l) =>
    obtain rfl : j = i := by
      cases l <;> first | exact hl | exact hl.1 | exact hl.elim
    obtain ⟨-, hdir⟩ := Provider.step_inl_eq_some.mp hstep
    simp [ServiceDirectory.step, hret, ServiceDirectory.callStep] at hdir

/-- The call has returned, and the snapshot needs nothing but the stream's backlog. -/
structure Loaded (name : String) (i k r : ℕ) (sys : Deployment LocalRegistry) : Prop where
  returned : Returned i sys
  subscribed : (source name r).Subscribed k sys
  sound : ∀ id, Follower.Sound id ((source name r).follower k sys)
  synced : ∀ id, Follower.Synced id ((source name r).follower k sys)

theorem Loaded.step (h : Loaded name i k r sys) {l : DirectoryLabel ⊕ LocalOp}
    (hl : FirstLoad name i k l) (hlag : sys'.registry.InStep r)
    (hstep : provider.step sys l = some sys') : Loaded name i k r sys' := by
  obtain ⟨hret, hfollowing, hclear⟩ := h.returned.step hl hstep
  have hfair : (source name r).Fairly sys l := fun op hop sys'' hstep'' => by
    obtain rfl := Option.some.inj (hstep.symm.trans hstep'')
    exact ⟨fun hc => hclear (hop.trans (congrArg _ hc)), hlag⟩
  obtain ⟨hsub, hrun⟩ := h.subscribed.step hfollowing hfair hstep
  exact ⟨hret, hsub, fun id => Follower.sound_run (h.sound id) hrun,
    fun id => Follower.synced_run (h.synced id) (h.sound id) hrun⟩

theorem Loaded.converged (h : Loaded name i k r sys) : Converged name i k sys :=
  fun _ hdrained => funext fun id => by
    have hsynced := h.synced id
    rw [Follower.Synced, show ((source name r).follower k sys).backlog = []
      from hdrained.undelivered h.subscribed] at hsynced
    exact hsynced

/-- The subscription appends the receiver of a new task. -/
theorem Loading.receiver (h : Loading name i k r sys) (instances : List ServiceInstance)
    (token : ℕ) : (subscribe name i instances token sys).registry.receivers[r]?
      = some ⟨name, [], 0⟩ := by
  obtain rfl := h.receivers
  exact List.getElem?_concat_length

/-- The subscription establishes the stream of that task. -/
theorem Loading.established (h : Loading name i k r sys) (instances : List ServiceInstance)
    (token : ℕ) : (source name r).Established k (subscribe name i instances token sys) := by
  have hrx := h.receiver instances token
  obtain ⟨-, rfl, -, rfl⟩ := h
  exact ⟨⟨_, Function.update_self .., rfl, rfl, rfl⟩, ⟨_, hrx, rfl, rfl⟩, backlog_eq hrx⟩

/-- Where the map has not changed since the listing, the call returns with a good snapshot. -/
theorem Loading.loaded (h : Loading name i k r sys) {instances : List ServiceInstance} {token : ℕ}
    (hat : sys.directory.calls i = .subscribing name instances token)
    (hsame : byId instances = sys.registry.view name) :
    Loaded name i k r (subscribe name i instances token sys) := by
  have hest := h.established instances token
  have hstage := h.stage
  rw [hat] at hstage
  obtain ⟨hbacklog, hlisting⟩ := hest.opened
  refine ⟨⟨instances, Function.update_self ..⟩, hest.subscribed, fun id => ?_, fun id => ?_⟩
  · exact Follower.sound_of_opened hbacklog hlisting
  · rw [Follower.Synced, hbacklog]
    exact congrFun ((congrArg byId hstage.2).trans hsame) id

/-- Where it has changed, the call returns with a stale snapshot and an empty stream. -/
theorem Loading.not_converged (h : Loading name i k r sys) {instances : List ServiceInstance}
    {token : ℕ} (hat : sys.directory.calls i = .subscribing name instances token)
    (hdiff : byId instances ≠ sys.registry.view name) :
    ¬ Converged name i k (subscribe name i instances token sys) := by
  intro hconv
  have hest := h.established instances token
  have hstage := h.stage
  rw [hat] at hstage
  obtain ⟨t, ht, -, hstream, hidle⟩ := hest.task
  refine hdiff (Eq.trans ?_ (hconv ⟨instances, Function.update_self ..⟩
    ⟨t, r, _, ht, hstream, (WatchTask.pending_eq_none.mp hidle).1, h.receiver instances token,
      rfl⟩))
  exact congrArg byId hstage.2.symm

/-! ## Runs -/

/-- **What a first load misses, exactly.**  Along a run of one `load_or_watch` with updates and no
reconcile, in which the receiver it opens does not lag, the drained snapshot equals the registry's
map whenever the call has returned, if and only if the call subscribes while the map is what it has
listed. -/
theorem converges_iff (hstart : Unloaded name i sys.directory)
    (hw : ∀ l ∈ w, FirstLoad name i sys.directory.nextTask l)
    (hlag : EachState provider.step
      (fun sys' => sys'.registry.InStep sys.registry.receivers.length) sys w) :
    EachState provider.step (Converged name i sys.directory.nextTask) sys w
      ↔ EachStep provider.step (SubscribesUnchanged name i) sys w := by
  have hload := hstart.loading
  constructor
  · refine eachStep_of_eachState
      (I := fun sys' => Loading name i sys.directory.nextTask sys.registry.receivers.length sys'
        ∨ Returned i sys') (fun s l s' hs hl hstep => ?_) (fun s l hs _ hC => ?_) (.inl hload)
      (eachStep_of_forall_mem hw)
    · rcases hs with hs | hs
      · rcases hs.step hl hstep with hs' | ⟨instances, token, -, -, rfl⟩
        · exact .inl hs'
        · exact .inr ⟨instances, Function.update_self ..⟩
      · exact .inr (hs.step hl hstep).1
    · obtain ⟨rfl, instances, token, hat, hdiff⟩ : l = _ ∧ ∃ instances token,
          s.directory.calls i = .subscribing name instances token
            ∧ byId instances ≠ s.registry.view name := by
        simpa [SubscribesUnchanged] using hC
      rcases hs with hs | ⟨_, hret⟩
      · exact ⟨_, step_subscribe hat, hs.not_converged hat hdiff⟩
      · simp [hat] at hret
  · intro hC
    have hinv := eachState_of_invariant
      (I := fun sys' => Loading name i sys.directory.nextTask sys.registry.receivers.length sys'
        ∨ Loaded name i sys.directory.nextTask sys.registry.receivers.length sys')
      (fun s l s' hs hl hstep => ?_) (.inl hload)
      (((eachStep_of_forall_mem hw).and hlag.next).and hC)
    · refine hinv.imp fun s hs => ?_
      rcases hs with hs | hs
      · exact fun ⟨_, hret⟩ => by
          have hstage := hs.stage
          rw [hret] at hstage
          exact hstage.elim
      · exact hs.converged
    · obtain ⟨⟨hl, hlag⟩, hC⟩ := hl
      rcases hs with hs | hs
      · rcases hs.step hl hstep with hs' | ⟨instances, token, hat, hlabel, rfl⟩
        · exact .inl hs'
        · exact .inr (hs.loaded hat (hC hlabel instances token hat))
      · exact .inr (hs.step hl (hlag _ hstep) hstep)

/-- A fresh directory over an empty registry. -/
def freshSystem : Deployment LocalRegistry := ⟨ServiceDirectory.withOptions false ∅, new⟩

/-- A first load, and an instance that comes up right after the listing. -/
def lateInstance : List (DirectoryLabel ⊕ LocalOp) :=
  [.inl (.call 0 (.loadOrWatch "order-svc")), .inl (.call 0 .read), .inl (.call 0 .lock),
    .inl (.call 0 (.listed (.ok []))),
    .inr (.addInstance (ServiceInstance.simple "order-svc" "127.0.0.1" 8080)),
    .inl (.call 0 .insert), .inl (.call 0 .lock), .inl (.call 0 (.subscribed (.ok 0)))]

theorem unloaded_freshSystem : Unloaded "order-svc" 0 freshSystem.directory :=
  ⟨ServiceDirectory.guarded_withOptions _ _, rfl, Finmap.notMem_empty, Finmap.notMem_empty⟩

theorem firstLoad_lateInstance : ∀ l ∈ lateInstance, FirstLoad "order-svc" 0 0 l := by
  simp [lateInstance, FirstLoad, ServiceInstance.simple, ServiceInstance.newHttp,
    ServiceInstance.new]

theorem inStep_lateInstance :
    EachState provider.step (fun sys => sys.registry.InStep 0) freshSystem lateInstance := by
  decide +kernel

/-- `converges_iff` on that run. -/
theorem converges_iff_lateInstance :
    EachState provider.step (Converged "order-svc" 0 0) freshSystem lateInstance
      ↔ EachStep provider.step (SubscribesUnchanged "order-svc" 0) freshSystem lateInstance :=
  converges_iff unloaded_freshSystem firstLoad_lateInstance inStep_lateInstance

/-- **A missed update.**  The instance is neither in the listing nor in the stream: the call returns
with an empty snapshot and nothing pending. -/
theorem late_instance_missed :
    Unloaded "order-svc" 0 freshSystem.directory
      ∧ (∀ l ∈ lateInstance, FirstLoad "order-svc" 0 freshSystem.directory.nextTask l)
      ∧ EachState provider.step
        (fun sys => sys.registry.InStep freshSystem.registry.receivers.length)
        freshSystem lateInstance
      ∧ ¬ EachState provider.step (Converged "order-svc" 0 freshSystem.directory.nextTask)
        freshSystem lateInstance := by
  refine ⟨unloaded_freshSystem, firstLoad_lateInstance, inStep_lateInstance, fun h => ?_⟩
  have hconv := h.last rfl ⟨_, rfl⟩ ⟨_, 0, _, rfl, rfl, rfl, rfl, rfl⟩
  exact absurd (congrFun hconv "order-svc-127.0.0.1-8080") (by decide +kernel)

end LocalRegistry

end PecsRegistry
