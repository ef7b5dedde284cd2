import PecsRegistry.Directory.Snapshot
import PecsRegistry.Machinery.Transition
import Mathlib.Tactic.Simps.Basic

/-!
# Directory/System — the service directory as a transition system

A `ServiceDirectory` is shared by its calls (`load_or_watch`, `unwatch`, `shutdown`) and by the
watch tasks it has spawned (`run_watch_loop`).  `step` moves one of them from one await point, or
one shared access, to the next:

* the `active_watches` mutex is `lockedBy` the call that holds its guard across an await point; a
  lock taken and released between two await points is one step;
* the snapshot map is swapped as a whole (`ArcSwap::rcu`), one step for each swap;
* a task takes an event from its stream in one step and applies it in another, and so with the
  listing of a reconcile;
* a future may be dropped wherever it is suspended, which releases the guard it holds;
* `persist_to_disk` spawns a task, which writes its list when it is scheduled.

A label carries every answer the outside gives (the registry's, the file system's, which branch a
`select!` takes), so `step` is a function.  `query` reads off what a label asks of the registry;
`Provider.step` lets a registry model answer.
-/

namespace PecsRegistry

/-! ## State -/

/-- Where a call stands.  `subscribing`, `cancelling` and `draining` hold the `active_watches`
guard. -/
inductive CallState
  | idle
  | starting (name : String)
  | checking (name : String) (existing : Option (List ServiceInstance))
  | listing (name : String)
  | recovering (name : String) (err : RegistryError)
  | inserting (name : String) (instances : List ServiceInstance)
  | ensuring (name : String) (instances : List ServiceInstance)
  | subscribing (name : String) (instances : List ServiceInstance) (token : ℕ)
  | unwatching (name : String)
  | cancelling (token : ℕ)
  | shuttingDown
  | draining (tokens : Multiset ℕ)
  | returned (result : RegistryResult (List ServiceInstance))
  | finished
  | dropped

/-- A call is suspended where it awaits: there its future may be dropped. -/
def CallState.Suspended : CallState → Prop
  | starting _ | checking .. | listing _ | recovering .. | ensuring .. | subscribing ..
  | unwatching _ | shuttingDown => True
  | _ => False

instance : DecidablePred CallState.Suspended := fun s => by
  cases s <;> simp only [CallState.Suspended] <;> infer_instance

/-- Where a watch task stands in `run_watch_loop`; past `watching` it owns an event stream. -/
inductive TaskState
  | entering
  | watching
  | backingOff
  | priming (stream : ℕ)
  | selecting (stream : ℕ)
  | applying (stream : ℕ) (event : ServiceEvent)
  | reconciling (stream : ℕ)
  | resetting (stream : ℕ) (latest : List ServiceInstance)
  | stopped
deriving DecidableEq

/-- A spawned `run_watch_loop`; `retryBackoff` counts seconds. -/
structure WatchTask where
  name : String
  token : ℕ
  initialStream : Option ℕ
  retryBackoff : ℕ
  state : TaskState
deriving DecidableEq

/-- The snapshot files of a cache directory, each as the list that its text reads back as.  The JSON
text of an instance reads back as `reread` of it, if at all: the weight may come back as a
neighbouring double. -/
structure Disk where
  reread : ServiceInstance → Option ServiceInstance
  files : HashMap String (List ServiceInstance)

namespace Disk

/-- No files; instances read back as they were written. -/
instance : EmptyCollection Disk := ⟨some, ∅⟩

def load (disk : Disk) (name : String) : Option (List ServiceInstance) := disk.files.lookup name

/-- The text of a list is the texts of its instances, in brackets. -/
def write (disk : Disk) (name : String) (instances : List ServiceInstance) : Disk :=
  { disk with
    files := match instances.mapM disk.reread with
      | some list => disk.files.insert name list
      | none => disk.files.erase name }

theorem load_write (disk : Disk) (name name' : String) (instances : List ServiceInstance) :
    (disk.write name instances).load name'
      = if name' = name then instances.mapM disk.reread else disk.load name' := by
  rw [load, write]
  cases instances.mapM disk.reread with
  | some list => exact HashMap.lookup_insert ..
  | none => exact HashMap.lookup_erase ..

@[simp] theorem write_reread (disk : Disk) (name : String) (instances : List ServiceInstance) :
    (disk.write name instances).reread = disk.reread := rfl

/-- Reading back stays in `A`. -/
def Keeps (disk : Disk) (A : ServiceInstance → Prop) : Prop :=
  ∀ inst inst', disk.reread inst = some inst' → A inst → A inst'

theorem Keeps.mapM {disk : Disk} {A : ServiceInstance → Prop} (h : disk.Keeps A) :
    ∀ {instances list : List ServiceInstance}, instances.mapM disk.reread = some list →
      (∀ inst ∈ instances, A inst) → ∀ inst ∈ list, A inst
  | [], _, hlist, _ => by
    obtain rfl := Option.some.inj hlist
    simp
  | inst :: instances, list, hlist, hall => by
    rw [List.mapM_cons] at hlist
    obtain ⟨inst', hinst, hrest⟩ := Option.bind_eq_some_iff.mp hlist
    obtain ⟨list', hlist', hcons⟩ := Option.bind_eq_some_iff.mp hrest
    obtain rfl := Option.some.inj hcons
    obtain ⟨hhead, htail⟩ := List.forall_mem_cons.mp hall
    exact List.forall_mem_cons.mpr ⟨h inst inst' hinst hhead, h.mapM hlist' htail⟩

/-- Instances read back as they were written, but for their weights. -/
def ButWeight (disk : Disk) : Prop :=
  ∀ inst inst', disk.reread inst = some inst' → inst.ButWeight inst'

/-- Instances read back as they were written. -/
def Exact (disk : Disk) : Prop := ∀ inst, disk.reread inst = some inst

theorem Exact.mapM {disk : Disk} (h : disk.Exact) (instances : List ServiceInstance) :
    instances.mapM disk.reread = some instances := by
  rw [funext h]
  exact (List.mapM_pure (m := Option) (f := id)).trans (congrArg some instances.map_id)

end Disk

/-- The directory, its calls and its tasks.  A cancellation token is a number; a clone of it is the
same number. -/
structure ServiceDirectory where
  snapshots : HashMap String (List ServiceInstance)
  activeWatches : HashMap String ℕ
  lockedBy : Option ℕ
  cancelled : Finset ℕ
  nextToken : ℕ
  calls : ℕ → CallState
  tasks : ℕ → Option WatchTask
  nextTask : ℕ
  diskCache : Bool
  disk : Disk
  persists : List (String × List ServiceInstance)

/-- The event stream a task owns, or is about to take over. -/
def WatchTask.stream (t : WatchTask) : Option ℕ :=
  match t.state with
  | .entering => t.initialStream
  | .priming stream | .selecting stream | .applying stream _ | .reconciling stream
  | .resetting stream _ => some stream
  | _ => none

/-- The event a task has taken from its stream and is about to apply. -/
def WatchTask.taken (t : WatchTask) : Option ServiceEvent :=
  match t.state with
  | .applying _ event => some event
  | _ => none

/-- The listing a task is about to apply. -/
def WatchTask.latest (t : WatchTask) : Option (List ServiceInstance) :=
  match t.state with
  | .resetting _ latest => some latest
  | _ => none

theorem WatchTask.taken_eq_some {t : WatchTask} {event : ServiceEvent} :
    t.taken = some event ↔ ∃ stream, t.state = .applying stream event := by
  rw [taken]
  cases t.state <;> simp

theorem WatchTask.latest_eq_some {t : WatchTask} {latest : List ServiceInstance} :
    t.latest = some latest ↔ ∃ stream, t.state = .resetting stream latest := by
  rw [WatchTask.latest]
  cases t.state <;> simp

/-- What a task is about to apply, in either case. -/
def WatchTask.pending (t : WatchTask) : Option ServiceEvent :=
  match t.state with
  | .applying _ event => some event
  | .resetting _ latest => some (.reset latest)
  | _ => none

theorem WatchTask.pending_eq_none {t : WatchTask} :
    t.pending = none ↔ t.taken = none ∧ t.latest = none := by
  rw [pending, taken, WatchTask.latest]
  cases t.state <;> simp

namespace ServiceDirectory

/-- A fresh directory over whatever an earlier process left on disk. -/
def withOptions (diskCache : Bool) (disk : Disk) :
    ServiceDirectory where
  snapshots := ∅
  activeWatches := ∅
  lockedBy := none
  cancelled := ∅
  nextToken := 0
  calls := fun _ => .idle
  tasks := fun _ => none
  nextTask := 0
  diskCache := diskCache
  disk := disk
  persists := []

/-- The current snapshot of a service. -/
def getInstances (d : ServiceDirectory) (name : String) : List ServiceInstance :=
  (d.snapshots.lookup name).getD []

@[simps]
def setCall (d : ServiceDirectory) (i : ℕ) (s : CallState) : ServiceDirectory :=
  { d with calls := Function.update d.calls i s }

@[simps]
def setTask (d : ServiceDirectory) (k : ℕ) (t : WatchTask) : ServiceDirectory :=
  { d with tasks := Function.update d.tasks k (some t) }

/-- One swap of the snapshot map. -/
@[simps]
def store (d : ServiceDirectory) (name : String) (instances : List ServiceInstance) :
    ServiceDirectory :=
  { d with snapshots := d.snapshots.insert name instances }

@[simps]
def persistToDisk (d : ServiceDirectory) (name : String) (instances : List ServiceInstance) :
    ServiceDirectory :=
  { d with persists := if d.diskCache then d.persists ++ [(name, instances)] else d.persists }

def applyEvent (d : ServiceDirectory) (name : String) (event : ServiceEvent) :
    ServiceDirectory :=
  let finalList := newList (d.getInstances name) event
  (d.store name finalList).persistToDisk name finalList

theorem getInstances_store (d : ServiceDirectory) (name name' : String)
    (instances : List ServiceInstance) :
    (d.store name instances).getInstances name'
      = if name' = name then instances else d.getInstances name' := by
  rw [getInstances, store_snapshots, HashMap.lookup_insert]
  split_ifs <;> rfl

theorem getInstances_applyEvent (d : ServiceDirectory) (name name' : String)
    (event : ServiceEvent) :
    (d.applyEvent name event).getInstances name'
      = if name' = name then newList (d.getInstances name) event else d.getInstances name' :=
  getInstances_store d name name' _

/-- The guard of `active_watches` is taken by call `i`. -/
@[simps]
def lock (d : ServiceDirectory) (i : ℕ) : ServiceDirectory := { d with lockedBy := some i }

@[simps]
def unlock (d : ServiceDirectory) : ServiceDirectory := { d with lockedBy := none }

/-- A new token is filed for a service. -/
@[simps]
def enrol (d : ServiceDirectory) (name : String) : ServiceDirectory :=
  { d with activeWatches := d.activeWatches.insert name d.nextToken, nextToken := d.nextToken + 1 }

@[simps]
def cancel (d : ServiceDirectory) (token : ℕ) : ServiceDirectory :=
  { d with cancelled := insert token d.cancelled }

@[simps]
def spawnWatch (d : ServiceDirectory) (name : String) (token : ℕ) (initialStream : Option ℕ) :
    ServiceDirectory :=
  { d.setTask d.nextTask ⟨name, token, initialStream, 1, .entering⟩ with
    nextTask := d.nextTask + 1 }

end ServiceDirectory

/-! ## Labels -/

/-- What a call does next, with the answer it gets. -/
inductive CallLabel
  | loadOrWatch (name : String)
  | unwatch (name : String)
  | shutdown
  | read
  | lock
  | listed (result : RegistryResult (List ServiceInstance))
  | recovered (contents : Option (List ServiceInstance))
  | insert
  | subscribed (result : RegistryResult ℕ)
  | cancel (token : ℕ)
  | clear

/-- What a watch task does next, with the answer it gets. -/
inductive TaskLabel
  | enter
  | watched (result : RegistryResult ℕ)
  | cancelled
  | slept
  | primed
  | tick
  | listed (result : RegistryResult (List ServiceInstance))
  | reset
  | next (event : Option ServiceEvent)
  | apply

/-- One step of the directory: a call or a task moves, a future is dropped, `apply_event` is called
from outside, or the `n`-th pending disk write is carried out, and either succeeds or not. -/
inductive DirectoryLabel
  | call (i : ℕ) (l : CallLabel)
  | drop (i : ℕ)
  | task (k : ℕ) (l : TaskLabel)
  | apply (name : String) (event : ServiceEvent)
  | persist (n : ℕ) (written : Bool)

/-! ## Steps -/

namespace ServiceDirectory

/-- A step of `load_or_watch`, `unwatch` or `shutdown`. -/
def callStep (d : ServiceDirectory) (i : ℕ) : CallState → CallLabel → Option ServiceDirectory
  | .idle, .loadOrWatch name => some (d.setCall i (.starting name))
  | .idle, .unwatch name => some (d.setCall i (.unwatching name))
  | .idle, .shutdown => some (d.setCall i .shuttingDown)
  | .starting name, .read => some (d.setCall i (.checking name (d.snapshots.lookup name)))
  | .checking name existing, .lock =>
      if d.lockedBy = none then
        match existing with
        | some instances =>
            if name ∈ d.activeWatches then some (d.setCall i (.returned (.ok instances)))
            else some (d.setCall i (.listing name))
        | none => some (d.setCall i (.listing name))
      else none
  | .listing name, .listed (.ok instances) =>
      some ((d.persistToDisk name instances).setCall i (.inserting name instances))
  | .listing name, .listed (.error err) => some (d.setCall i (.recovering name err))
  | .recovering name _, .recovered (some instances) =>
      if d.diskCache ∧ d.disk.load name = some instances then
        some (d.setCall i (.inserting name instances))
      else none
  | .recovering _ err, .recovered none => some (d.setCall i (.returned (.error err)))
  | .inserting name instances, .insert =>
      some ((d.store name instances).setCall i (.ensuring name instances))
  | .ensuring name instances, .lock =>
      if d.lockedBy = none then
        if name ∈ d.activeWatches then some (d.setCall i (.returned (.ok instances)))
        else some (((d.enrol name).lock i).setCall i (.subscribing name instances d.nextToken))
      else none
  | .subscribing name instances token, .subscribed result =>
      some ((d.spawnWatch name token result.toOption).unlock.setCall i (.returned (.ok instances)))
  | .unwatching name, .lock =>
      if d.lockedBy = none then
        match d.activeWatches.lookup name with
        | some token =>
            some (({ d with activeWatches := d.activeWatches.erase name }.lock i).setCall i
              (.cancelling token))
        | none => some (d.setCall i .finished)
      else none
  | .cancelling token, .cancel t =>
      if t = token then some ((d.cancel token).unlock.setCall i .finished) else none
  | .shuttingDown, .lock =>
      if d.lockedBy = none then
        some (({ d with activeWatches := ∅ }.lock i).setCall i (.draining d.activeWatches.values))
      else none
  | .draining tokens, .cancel token =>
      if token ∈ tokens then some ((d.cancel token).setCall i (.draining (tokens.erase token)))
      else none
  | .draining tokens, .clear =>
      if tokens = 0 then some ({ d with snapshots := ∅ }.unlock.setCall i .finished) else none
  | _, _ => none

/-- A suspended future is dropped, and with it the guard it holds. -/
def dropCall (d : ServiceDirectory) (i : ℕ) : Option ServiceDirectory :=
  if (d.calls i).Suspended then
    some ({ d with lockedBy := if d.lockedBy = some i then none else d.lockedBy }.setCall i
      .dropped)
  else none

/-- A step of `run_watch_loop`. -/
def taskStep (d : ServiceDirectory) (k : ℕ) (t : WatchTask) :
    TaskState → TaskLabel → Option ServiceDirectory
  | .entering, .enter =>
      if t.token ∈ d.cancelled then some (d.setTask k { t with state := .stopped })
      else match t.initialStream with
        | some stream =>
            some (d.setTask k
              { t with initialStream := none, retryBackoff := 1, state := .priming stream })
        | none => some (d.setTask k { t with state := .watching })
  | .watching, .watched (.ok stream) =>
      some (d.setTask k { t with retryBackoff := 1, state := .priming stream })
  | .watching, .watched (.error _) => some (d.setTask k { t with state := .backingOff })
  | .backingOff, .cancelled =>
      if t.token ∈ d.cancelled then some (d.setTask k { t with state := .stopped }) else none
  | .backingOff, .slept =>
      some (d.setTask k { t with retryBackoff := min (t.retryBackoff * 2) 10, state := .entering })
  | .priming stream, .primed => some (d.setTask k { t with state := .selecting stream })
  | .selecting _, .cancelled =>
      if t.token ∈ d.cancelled then some (d.setTask k { t with state := .stopped }) else none
  | .selecting stream, .tick => some (d.setTask k { t with state := .reconciling stream })
  | .selecting stream, .next (some event) =>
      some (d.setTask k { t with state := .applying stream event })
  | .applying stream event, .apply =>
      some ((d.applyEvent t.name event).setTask k { t with state := .selecting stream })
  | .selecting _, .next none => some (d.setTask k { t with state := .entering })
  | .reconciling stream, .listed (.ok latest) =>
      some (d.setTask k { t with state := .resetting stream latest })
  | .reconciling stream, .listed (.error _) =>
      some (d.setTask k { t with state := .selecting stream })
  | .resetting stream latest, .reset =>
      some ((d.applyEvent t.name (.reset latest)).setTask k { t with state := .selecting stream })
  | _, _ => none

/-- One step of the directory. -/
def step (d : ServiceDirectory) : DirectoryLabel → Option ServiceDirectory
  | .call i l => d.callStep i (d.calls i) l
  | .drop i => d.dropCall i
  | .task k l => (d.tasks k).bind fun t => d.taskStep k t t.state l
  | .apply name event => some (d.applyEvent name event)
  | .persist n written =>
      match d.persists[n]? with
      | some (name, instances) =>
          some { d with
            persists := d.persists.eraseIdx n
            disk := if written then d.disk.write name instances else d.disk }
      | none => none

end ServiceDirectory

/-! ## The registry behind the directory -/

/-- What the directory asks of its registry, and the answer it got. -/
inductive Query
  | list (name : String) (result : RegistryResult (List ServiceInstance))
  | watch (name : String) (result : RegistryResult ℕ)
  | next (stream : ℕ) (event : Option ServiceEvent)

def CallState.query (s : CallState) : CallLabel → Option Query
  | .listed result =>
      match s with
      | .listing name => some (.list name result)
      | _ => none
  | .subscribed result =>
      match s with
      | .subscribing name _ _ => some (.watch name result)
      | _ => none
  | _ => none

def WatchTask.query (t : WatchTask) : TaskLabel → Option Query
  | .watched result => some (.watch t.name result)
  | .listed result => some (.list t.name result)
  | .next event =>
      match t.state with
      | .selecting stream => some (.next stream event)
      | _ => none
  | _ => none

/-- The query behind a label. -/
def ServiceDirectory.query (d : ServiceDirectory) : DirectoryLabel → Option Query
  | .call i l => (d.calls i).query l
  | .task k l => (d.tasks k).bind fun t => t.query l
  | _ => none

/-- A registry model: the operations `ω` others perform on it, and the answers it can give. -/
structure Provider (σ ω : Type) where
  act : σ → ω → Option σ
  answer : σ → Query → Option σ

/-- A directory over a registry. -/
structure Deployment (σ : Type) where
  directory : ServiceDirectory
  registry : σ

namespace Provider

variable {σ ω : Type} (P : Provider σ ω)

/-- What the registry becomes under a query, if there is one. -/
def reply (registry : σ) : Option Query → Option σ
  | some q => P.answer registry q
  | none => some registry

/-- **A step of the whole**: the directory moves, and the registry gives the answer the label
carries; or somebody operates on the registry. -/
def step (s : Deployment σ) : DirectoryLabel ⊕ ω → Option (Deployment σ)
  | .inl l =>
      (P.reply s.registry (s.directory.query l)).bind fun registry =>
        (s.directory.step l).map fun directory => ⟨directory, registry⟩
  | .inr op => (P.act s.registry op).map fun registry => ⟨s.directory, registry⟩

variable {P} {s s' : Deployment σ}

theorem step_inl_eq_some {l : DirectoryLabel} :
    P.step s (.inl l) = some s' ↔ P.reply s.registry (s.directory.query l) = some s'.registry
      ∧ s.directory.step l = some s'.directory := by
  rw [step, Option.bind_eq_some_iff]
  constructor
  · rintro ⟨registry, hreply, h⟩
    obtain ⟨directory, hstep, rfl⟩ := Option.map_eq_some_iff.mp h
    exact ⟨hreply, hstep⟩
  · exact fun ⟨hreply, hstep⟩ => ⟨_, hreply, Option.map_eq_some_iff.mpr ⟨_, hstep, rfl⟩⟩

/-- The directory's steps leave the registry alone, but for the query they make. -/
theorem registry_of_step {l : DirectoryLabel} (h : P.step s (.inl l) = some s') :
    s'.registry = s.registry ∨ ∃ q, P.answer s.registry q = some s'.registry := by
  obtain ⟨hreply, -⟩ := step_inl_eq_some.mp h
  cases hq : s.directory.query l with
  | none =>
    rw [hq] at hreply
    exact .inl (Option.some.inj hreply).symm
  | some q =>
    rw [hq] at hreply
    exact .inr ⟨q, hreply⟩

theorem step_inr_eq_some {op : ω} :
    P.step s (.inr op) = some s' ↔ P.act s.registry op = some s'.registry
      ∧ s'.directory = s.directory := by
  rw [step, Option.map_eq_some_iff]
  constructor
  · rintro ⟨registry, hact, rfl⟩
    exact ⟨hact, rfl⟩
  · rintro ⟨hact, hdir⟩
    exact ⟨_, hact, by rw [← hdir]⟩

end Provider

end PecsRegistry
