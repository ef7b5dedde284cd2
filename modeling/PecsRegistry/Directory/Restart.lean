import PecsRegistry.Directory.Moves

/-!
# Directory/Restart — a process that is killed and started again

A process that is killed loses its snapshots and the disk writes that still wait; what it falls back
on, once it is started again and the registry is down, are the files.  Here the writes are carried
out in the order they are spawned, and succeed, and instances read back as they were written.

A load has its listing written before it takes it over, so another listing or event may come in
between; and calls of `apply_event` that overlap may spawn their writes in another order than they
swap the snapshot.  **The files are going to hold what is in memory, exactly** as long as no load
takes over, and no call of `apply_event` spawns, a list that is out of date (`follows_iff`).  Then a
process that is killed with nothing waiting knows afterwards what it knew before (`recalled`).
-/

namespace PecsRegistry

open Transition

/-- A directory, and the writes that calls of `apply_event` have yet to spawn. -/
structure Process where
  directory : ServiceDirectory
  unspawned : List (String × List ServiceInstance)

/-- A step of the directory; one that applies an event, up to the swap of the snapshot; the spawn
that is left of such a step; or the process is killed and started again. -/
inductive LifeLabel
  | alive (l : DirectoryLabel)
  | swap (l : DirectoryLabel)
  | spawn (n : ℕ)
  | restart

/-- The step calls `apply_event`. -/
def DirectoryLabel.applies : DirectoryLabel → Bool
  | .apply _ _ | .task _ .apply | .task _ .reset => true
  | _ => false

namespace ServiceDirectory

variable {d : ServiceDirectory}

/-- The files, once the writes that wait have been carried out in order. -/
def flushed (d : ServiceDirectory) : Disk :=
  d.persists.foldl (fun disk p => disk.write p.1 p.2) d.disk

theorem flushed_exact (h : d.disk.Exact) : d.flushed.Exact := by
  rw [flushed]
  generalize d.persists = persists
  induction persists using List.reverseRecOn with
  | nil => exact h
  | append_singleton persists p ih =>
    rw [List.foldl_append]
    exact ih

theorem load_flushed_persistToDisk (hcached : d.diskCache = true) (hexact : d.disk.Exact)
    (name name' : String) (list : List ServiceInstance) :
    (d.persistToDisk name list).flushed.load name'
      = if name' = name then some list else d.flushed.load name' := by
  have hflushed : (d.persistToDisk name list).flushed = d.flushed.write name list := by
    rw [flushed, persistToDisk_persists, if_pos hcached, List.foldl_append]
    rfl
  rw [hflushed, Disk.load_write, (flushed_exact hexact).mapM]

end ServiceDirectory

namespace Process

open ServiceDirectory

variable {p p' : Process} {name name' : String} {list : List ServiceInstance} {i : ℕ}
  {w v : List LifeLabel}

/-- A process that has just been started. -/
def start (diskCache : Bool) (disk : Disk) : Process := ⟨.withOptions diskCache disk, []⟩

def step (p : Process) : LifeLabel → Option Process
  | .alive l => (p.directory.step l).map fun d => { p with directory := d }
  | .swap l =>
      if l.applies then (p.directory.step l).map fun d =>
        ⟨{ d with persists := p.directory.persists },
          p.unspawned ++ d.persists.drop p.directory.persists.length⟩
      else none
  | .spawn n =>
      match p.unspawned[n]? with
      | some (name, list) =>
          some ⟨p.directory.persistToDisk name list, p.unspawned.eraseIdx n⟩
      | none => none
  | .restart => some (start p.directory.diskCache p.directory.disk)

/-- The first write that waits is carried out, and succeeds. -/
def InOrder : LifeLabel → Prop
  | .alive (.persist n written) => n = 0 ∧ written = true
  | _ => True

/-- A write of the service is still to be spawned. -/
def Owes (p : Process) (name : String) : Prop := ∃ q ∈ p.unspawned, q.1 = name

/-- The files are going to hold the list of the service, or one that a load is about to put in its
place. -/
def InLine (d : ServiceDirectory) (name : String) (list : List ServiceInstance) : Prop :=
  ∃ latest, d.flushed.load name = some latest
    ∧ (latest = list ∨ ∃ i, d.calls i = .inserting name latest)

/-- The files are in line with the memory, for each service with no write still to be spawned. -/
structure Follows (p : Process) : Prop where
  cached : p.directory.diskCache = true
  reads : p.directory.disk.Exact
  due : ∀ name list, p.directory.snapshots.lookup name = some list →
    p.Owes name ∨ InLine p.directory name list

/-- A load takes over a list that the files are going to hold, or that another load replaces; and a
call of `apply_event` spawns the write of the list in memory, or of one that a load is about to put
there; or else a write of the service is still to be spawned. -/
def Due (p : Process) : LifeLabel → Prop
  | .alive (.call i .insert) => ∀ name list, p.directory.calls i = .inserting name list →
      p.Owes name ∨ ∃ latest, p.directory.flushed.load name = some latest
        ∧ (latest = list ∨ ∃ j ≠ i, p.directory.calls j = .inserting name latest)
  | .spawn n => ∀ name latest, p.unspawned[n]? = some (name, latest) →
      (∃ q ∈ p.unspawned.eraseIdx n, q.1 = name)
        ∨ ∀ list, p.directory.snapshots.lookup name = some list →
          latest = list ∨ ∃ i, p.directory.calls i = .inserting name latest
  | _ => True

/-! ## What is going to be on disk -/

/-- A step that leaves the snapshots, what is going to be on disk and the writes still to be
spawned, and takes no load its list. -/
theorem Follows.frame (h : p.Follows) {d' : ServiceDirectory}
    (hcached : d'.diskCache = p.directory.diskCache) (hreads : d'.disk.Exact)
    (hsnapshots : d'.snapshots = p.directory.snapshots)
    (hflushed : d'.flushed = p.directory.flushed)
    (hcalls : ∀ i name list, p.directory.calls i = .inserting name list →
      d'.calls i = .inserting name list) : Follows ⟨d', p.unspawned⟩ := by
  refine ⟨hcached.trans h.cached, hreads, fun name list hlist => ?_⟩
  refine (h.due name list (hsnapshots ▸ hlist)).imp_right ?_
  rintro ⟨latest, hlatest, hheld⟩
  exact ⟨latest, hflushed ▸ hlatest, hheld.imp_right fun ⟨i, hi⟩ => ⟨i, hcalls i _ _ hi⟩⟩

theorem Follows.applyEvent (h : p.Follows) (name : String) (event : ServiceEvent) :
    Follows ⟨p.directory.applyEvent name event, p.unspawned⟩ := by
  refine ⟨h.cached, h.reads, fun name' list hlist => ?_⟩
  have hload := load_flushed_persistToDisk
    (d := p.directory.store name (newList (p.directory.getInstances name) event)) h.cached h.reads
    name name' (newList (p.directory.getInstances name) event)
  rw [ServiceDirectory.applyEvent, persistToDisk_snapshots, store_snapshots,
    HashMap.lookup_insert] at hlist
  split_ifs at hlist hload with hname
  · exact .inr ⟨list, hload.trans hlist, .inl rfl⟩
  · refine (h.due name' list hlist).imp_right ?_
    rintro ⟨latest, hlatest, hheld⟩
    exact ⟨latest, hload.trans hlatest, hheld⟩

/-- A load takes over its list: the files follow if and only if the list is due. -/
theorem Follows.insert_iff (h : p.Follows) (at_ : p.directory.calls i = .inserting name list) :
    Follows ⟨(p.directory.store name list).setCall i (.ensuring name list), p.unspawned⟩
      ↔ Due p (.alive (.call i .insert)) := by
  have hcalls : ∀ {j name' latest}, j ≠ i → (((p.directory.store name list).setCall i
      (.ensuring name list)).calls j = .inserting name' latest
        ↔ p.directory.calls j = .inserting name' latest) := fun hne => by
    rw [setCall_calls, Function.update_of_ne hne]
    rfl
  constructor
  · intro h' name' list' at_'
    obtain ⟨rfl, rfl⟩ := CallState.inserting.inj (at_.symm.trans at_')
    refine (h'.due name list (Finmap.lookup_insert _)).imp_right ?_
    rintro ⟨latest, hlatest, hheld⟩
    refine ⟨latest, hlatest, hheld.imp_right fun ⟨j, hj⟩ => ?_⟩
    have hne : j ≠ i := by
      rintro rfl
      simp at hj
    exact ⟨j, hne, (hcalls hne).mp hj⟩
  · intro hdue
    refine ⟨h.cached, h.reads, fun name' list' hlist => ?_⟩
    rw [setCall_snapshots, store_snapshots, HashMap.lookup_insert] at hlist
    split_ifs at hlist with hname
    · obtain rfl := Option.some.inj hlist
      refine (hname ▸ hdue _ _ at_).imp_right ?_
      rintro ⟨latest, hlatest, hheld⟩
      exact ⟨latest, hlatest, hheld.imp_right fun ⟨j, hne, hj⟩ => ⟨j, (hcalls hne).mpr hj⟩⟩
    · refine (h.due name' list' hlist).imp_right ?_
      rintro ⟨latest, hlatest, hheld⟩
      refine ⟨latest, hlatest, hheld.imp_right fun ⟨j, hj⟩ => ⟨j, (hcalls ?_).mpr hj⟩⟩
      rintro rfl
      exact hname (CallState.inserting.inj (hj.symm.trans at_)).1

theorem Follows.callMove (h : p.Follows) {l : CallLabel} {d' : ServiceDirectory}
    (move : CallMove p.directory i l d') :
    Follows ⟨d', p.unspawned⟩ ↔ Due p (.alive (.call i l)) := by
  have hcalls : ∀ {s s' : CallState}, p.directory.calls i = s →
      (∀ name list, s ≠ .inserting name list) →
      ∀ j name list, p.directory.calls j = .inserting name list →
        Function.update p.directory.calls i s' j = .inserting name list :=
    fun at_ hs j name list hj => by
      have hne : j ≠ i := by
        rintro rfl
        exact hs name list (at_.symm.trans hj)
      rw [Function.update_of_ne hne, hj]
  cases move with
  | insert at_ => exact h.insert_iff at_
  | @listed name instances at_ =>
    refine iff_of_true ⟨h.cached, h.reads, fun name' list hlist => ?_⟩ trivial
    have hload : ((p.directory.persistToDisk name instances).setCall i
        (.inserting name instances)).flushed.load name' = _ :=
      load_flushed_persistToDisk h.cached h.reads name name' instances
    rcases eq_or_ne name' name with rfl | hne
    · exact .inr ⟨instances, hload.trans (if_pos rfl), .inr ⟨i, Function.update_self ..⟩⟩
    · refine (h.due name' list hlist).imp_right ?_
      rintro ⟨latest, hlatest, hheld⟩
      exact ⟨latest, (hload.trans (if_neg hne)).trans hlatest,
        hheld.imp_right fun ⟨j, hj⟩ => ⟨j, hcalls at_ (by simp) j _ _ hj⟩⟩
  | clear at_ =>
    exact iff_of_true ⟨h.cached, h.reads, fun _ _ hlist => by simp at hlist⟩ trivial
  | _ => exact iff_of_true (h.frame rfl h.reads rfl rfl (hcalls ‹_› (by simp))) trivial

theorem Follows.taskMove (h : p.Follows) {k : ℕ} {t : WatchTask} {l : TaskLabel}
    {d' : ServiceDirectory} (move : TaskMove p.directory k t l d') :
    Follows ⟨d', p.unspawned⟩ := by
  cases move with
  | apply at_ | reset at_ =>
    exact (h.applyEvent _ _).frame rfl h.reads rfl rfl fun _ _ _ hi => hi
  | _ => exact h.frame rfl h.reads rfl rfl fun _ _ _ hi => hi

theorem Follows.alive_iff (h : p.Follows) {l : DirectoryLabel} (hl : InOrder (.alive l))
    {d' : ServiceDirectory} (hstep : p.directory.step l = some d') :
    Follows ⟨d', p.unspawned⟩ ↔ Due p (.alive l) := by
  cases move_of_step hstep with
  | call move => exact h.callMove move
  | @drop i suspended =>
    refine iff_of_true (h.frame rfl h.reads rfl rfl fun j name list hj => ?_) trivial
    have hne : j ≠ i := by
      rintro rfl
      rw [hj] at suspended
      exact suspended
    exact (Function.update_of_ne hne _ _).trans hj
  | task ht move => exact iff_of_true (h.taskMove move) trivial
  | apply name event => exact iff_of_true (h.applyEvent _ _) trivial
  | @persist n name instances written pending =>
    obtain ⟨rfl, rfl⟩ := hl
    refine iff_of_true (h.frame rfl h.reads rfl ?_ fun _ _ _ hi => hi) trivial
    cases hpersists : p.directory.persists with
    | nil => simp [hpersists] at pending
    | cons q rest =>
      obtain rfl : q = (name, instances) := by simpa [hpersists] using pending
      simp [flushed, hpersists]

/-- What a swap leaves to be spawned is the list it has stored. -/
theorem step_swap {l : DirectoryLabel} (hcached : p.directory.diskCache = true)
    (hstep : p.step (.swap l) = some p') : ∃ name list,
      p'.unspawned = p.unspawned ++ [(name, list)]
        ∧ p'.directory.snapshots = p.directory.snapshots.insert name list
        ∧ p'.directory.calls = p.directory.calls ∧ p'.directory.persists = p.directory.persists
        ∧ p'.directory.disk = p.directory.disk ∧ p'.directory.diskCache = true := by
  rw [step] at hstep
  split_ifs at hstep with happlies
  obtain ⟨d, hd, rfl⟩ := Option.map_eq_some_iff.mp hstep
  cases move_of_step hd with
  | apply name event =>
    exact ⟨name, newList (p.directory.getInstances name) event,
      by simp [ServiceDirectory.applyEvent, hcached], rfl, rfl, rfl, rfl, hcached⟩
  | @task k t _ _ ht move =>
    cases move with
    | @apply stream event at_ =>
      exact ⟨t.name, newList (p.directory.getInstances t.name) event,
        by simp [ServiceDirectory.applyEvent, hcached], rfl, rfl, rfl, rfl, hcached⟩
    | @reset stream latest at_ =>
      exact ⟨t.name, newList (p.directory.getInstances t.name) (.reset latest),
        by simp [ServiceDirectory.applyEvent, hcached], rfl, rfl, rfl, rfl, hcached⟩
    | _ => cases happlies
  | _ => cases happlies

theorem Follows.swap (h : p.Follows) {l : DirectoryLabel} (hstep : p.step (.swap l) = some p') :
    p'.Follows := by
  obtain ⟨name, list, hunspawned, hsnapshots, hcalls, hpersists, hdisk, hcached⟩ :=
    step_swap h.cached hstep
  have hflushed : p'.directory.flushed = p.directory.flushed := by
    rw [flushed, hpersists, hdisk, flushed]
  refine ⟨hcached, hdisk ▸ h.reads, fun name' list' hlist => ?_⟩
  rw [hsnapshots, HashMap.lookup_insert] at hlist
  split_ifs at hlist with hname
  · exact .inl ⟨(name, list), by simp [hunspawned], hname.symm⟩
  · rcases h.due name' list' hlist with ⟨q, hq, hqname⟩ | hline
    · exact .inl ⟨q, by simp [hunspawned, hq], hqname⟩
    · exact .inr (by rwa [InLine, hflushed, hcalls])

/-- A write is spawned: the files follow if and only if its list is due. -/
theorem Follows.spawn_iff (h : p.Follows) {n : ℕ} {latest : List ServiceInstance}
    (hat : p.unspawned[n]? = some (name, latest)) :
    Follows ⟨p.directory.persistToDisk name latest, p.unspawned.eraseIdx n⟩
      ↔ Due p (.spawn n) := by
  have hload := fun name' => load_flushed_persistToDisk h.cached h.reads name name' latest
  constructor
  · intro h' name' latest' hat'
    obtain ⟨rfl, rfl⟩ := Prod.mk.inj (Option.some.inj (hat.symm.trans hat'))
    refine or_iff_not_imp_left.mpr fun howes list hlist => ?_
    obtain ⟨found, hfound, hheld⟩ := (h'.due name list hlist).resolve_left howes
    obtain rfl := Option.some.inj (((hload name).trans (if_pos rfl)).symm.trans hfound)
    exact hheld
  · intro hdue
    refine ⟨h.cached, h.reads, fun name' list hlist => ?_⟩
    rcases eq_or_ne name' name with rfl | hne
    · refine (hdue _ _ hat).imp_right fun hheld => ?_
      exact ⟨latest, (hload name').trans (if_pos rfl), hheld list hlist⟩
    · rcases h.due name' list hlist with ⟨q, hq, hqname⟩ | ⟨found, hfound, hheld⟩
      · refine .inl ⟨q, ?_, hqname⟩
        -- the write that is spawned is of another service
        obtain ⟨m, hm⟩ := List.mem_iff_getElem?.mp hq
        have hmn : m ≠ n := by
          rintro rfl
          obtain rfl := Option.some.inj (hm.symm.trans hat)
          exact hne hqname.symm
        exact List.mem_eraseIdx_iff_getElem?.mpr ⟨m, hmn, hm⟩
      · exact .inr ⟨found, ((hload name').trans (if_neg hne)).trans hfound, hheld⟩

/-- **A step keeps what is on its way to the disk in line with the memory**, exactly if the list
that a load takes over, or a call of `apply_event` spawns the write of, is due. -/
theorem Follows.step_iff (h : p.Follows) {l : LifeLabel} (hl : InOrder l)
    (hstep : p.step l = some p') : p'.Follows ↔ Due p l := by
  cases l with
  | alive l =>
    obtain ⟨d, hd, rfl⟩ := Option.map_eq_some_iff.mp hstep
    exact h.alive_iff hl hd
  | swap l => exact iff_of_true (h.swap hstep) trivial
  | spawn n =>
    rw [step] at hstep
    split at hstep
    case h_1 name latest hat =>
      obtain rfl := Option.some.inj hstep
      exact h.spawn_iff hat
    case h_2 => cases hstep
  | restart =>
    obtain rfl := Option.some.inj hstep
    exact iff_of_true ⟨h.cached, h.reads, fun _ _ hlist => by cases hlist⟩ trivial

theorem due_of_disabled {l : LifeLabel} (hnone : p.step l = none) : Due p l := by
  cases l with
  | spawn n =>
    intro name latest hat
    simp [step, hat] at hnone
  | alive l =>
    cases l with
    | call i l =>
      cases l with
      | insert =>
        intro name list at_
        simp [step, ServiceDirectory.step, at_, callStep] at hnone
      | _ => trivial
    | _ => trivial
  | _ => trivial

theorem follows_start {disk : Disk} (hexact : disk.Exact) : (start true disk).Follows :=
  ⟨rfl, hexact, fun _ _ hlist => by cases hlist⟩

/-- **The files are going to hold what is in memory, exactly** as long as every load that takes over
its list, and every call of `apply_event` that spawns a write, does so with a list that is due: in
every run of a process, killed and started again at any time, whose writes are carried out in
order. -/
theorem follows_iff {disk : Disk} (hexact : disk.Exact) (hw : ∀ l ∈ w, InOrder l) :
    EachState step Follows (start true disk) w ↔ EachStep step Due (start true disk) w :=
  eachState_iff_eachStep (D := fun _ => InOrder) (fun _ _ _ h hl hstep => h.step_iff hl hstep)
    (fun _ _ hnone => due_of_disabled hnone) (follows_start hexact) (eachStep_of_forall_mem hw)

/-- Two calls of `apply_event` overlap; both lists are written, in the order of the swaps. -/
def writing : List LifeLabel :=
  [.swap (.apply "order-svc" (.upsert (.simple "order-svc" "127.0.0.1" 8080))),
    .swap (.apply "order-svc" (.upsert (.simple "order-svc" "127.0.0.1" 8081))), .spawn 0,
    .spawn 0, .alive (.persist 0 true), .alive (.persist 0 true)]

theorem inOrder_writing : ∀ l ∈ writing, InOrder l := by simp [writing, InOrder]

theorem due_writing : EachStep step Due (start true ∅) writing := by
  refine ⟨trivial, fun p₁ h₁ => ⟨trivial, fun p₂ h₂ => ?_⟩⟩
  obtain rfl := Option.some.inj h₁
  obtain rfl := Option.some.inj h₂
  refine ⟨fun name latest hat => ?_, fun p₃ h₃ => ⟨fun name latest hat => ?_, fun p₄ h₄ => ?_⟩⟩
  · -- the second write is still to be spawned
    obtain ⟨rfl, -⟩ := Prod.mk.inj (Option.some.inj hat)
    exact .inl ⟨_, List.mem_singleton_self _, rfl⟩
  · obtain rfl := Option.some.inj h₃
    obtain ⟨rfl, rfl⟩ := Prod.mk.inj (Option.some.inj hat)
    exact .inr fun list hlist => .inl (Option.some.inj hlist)
  · exact ⟨trivial, fun _ _ => ⟨trivial, fun _ _ => trivial⟩⟩

/-- `follows_iff` there. -/
theorem follows_iff_writing : EachState step Follows (start true ∅) writing :=
  (follows_iff (fun _ => rfl) inOrder_writing).mpr due_writing

end Process

/-! ## While the registry is down -/

namespace ServiceDirectory

variable {d d' : ServiceDirectory} {name : String} {list : List ServiceInstance} {i : ℕ}
  {disk : Disk}

/-- No listing succeeds, no event arrives, and none is applied by hand. -/
def Down : DirectoryLabel → Prop
  | .call _ (.listed (.ok _)) | .task _ (.listed (.ok _)) | .task _ (.next (some _))
  | .apply _ _ => False
  | _ => True

/-- The list of a service that a call holds. -/
def held : CallState → Option (String × List ServiceInstance)
  | .checking name (some instances) | .inserting name instances | .ensuring name instances
  | .subscribing name instances _ => some (name, instances)
  | _ => none

/-- A list of the service is in memory, or in the hands of a call. -/
def Knows (d : ServiceDirectory) (name : String) (list : List ServiceInstance) : Prop :=
  d.snapshots.lookup name = some list ∨ ∃ i, held (d.calls i) = some (name, list)

/-- All that is known is on disk, and nothing else is going to be there. -/
structure Recalling (disk : Disk) (d : ServiceDirectory) : Prop where
  cached : d.diskCache = true
  disk_eq : d.disk = disk
  written : d.persists = []
  tasks : ∀ k t, d.tasks k = some t → t.pending = none
  snapshots : ∀ name list, d.snapshots.lookup name = some list → disk.load name = some list
  calls : ∀ i name list, held (d.calls i) = some (name, list) → disk.load name = some list

/-- What a process starts with. -/
theorem recalling_start (disk : Disk) : (withOptions true disk).Recalling disk := by
  refine ⟨rfl, rfl, rfl, ?_, ?_, ?_⟩ <;> simp [withOptions, held]

theorem Recalling.setCall (h : d.Recalling disk) {s : CallState}
    (hs : ∀ name list, held s = some (name, list) → disk.load name = some list) :
    (d.setCall i s).Recalling disk := by
  refine { h with calls := fun j name list hj => ?_ }
  rw [setCall_calls, Function.update_apply] at hj
  split_ifs at hj
  · exact hs name list hj
  · exact h.calls j name list hj

/-- A call moves on with the list it holds. -/
theorem Recalling.advance (h : d.Recalling disk) {s s' : CallState} (at_ : d.calls i = s)
    (hs : held s' = held s) : (d.setCall i s').Recalling disk :=
  h.setCall fun name list hheld => h.calls i name list (by rw [at_, ← hs, hheld])

/-- A call moves on without a list. -/
theorem Recalling.release (h : d.Recalling disk) {s : CallState} (hs : held s = none) :
    (d.setCall i s).Recalling disk :=
  h.setCall fun name list hheld => by simp [hs] at hheld

theorem Recalling.setTask (h : d.Recalling disk) {k : ℕ} {t : WatchTask} (ht : t.pending = none) :
    (d.setTask k t).Recalling disk := by
  refine { h with tasks := fun k' t' ht' => ?_ }
  rcases update_eq_some.mp ht' with ⟨-, rfl⟩ | ⟨-, hold⟩
  · exact ht
  · exact h.tasks k' t' hold

theorem Recalling.callMove (h : d.Recalling disk) {l : CallLabel} (hl : Down (.call i l))
    (move : CallMove d i l d') : d'.Recalling disk := by
  cases move with
  | @read name at_ =>
    refine h.setCall fun name' list hheld => ?_
    cases hlist : d.snapshots.lookup name with
    | none => simp [hlist, held] at hheld
    | some instances =>
      obtain ⟨rfl, rfl⟩ : name = name' ∧ instances = list := by simpa [hlist, held] using hheld
      exact h.snapshots _ _ hlist
  | listed instances at_ => exact hl.elim
  | @recovered name err instances at_ cached onDisk =>
    refine h.setCall fun name' list hheld => ?_
    obtain ⟨rfl, rfl⟩ : name = name' ∧ instances = list := by simpa [held] using hheld
    rw [← h.disk_eq, onDisk]
  | @insert name instances at_ =>
    refine Recalling.advance (d := d.store name instances) ?_ at_ rfl
    refine { h with snapshots := fun name' list hlist => ?_ }
    rw [store_snapshots, HashMap.lookup_insert] at hlist
    split_ifs at hlist with hname
    · obtain rfl := Option.some.inj hlist
      exact h.calls i name' instances (by rw [at_, hname, held])
    · exact h.snapshots name' list hlist
  | enrol at_ => exact Recalling.advance (d := (d.enrol _).lock i) { h with } at_ rfl
  | subscribed result at_ =>
    refine Recalling.release (d := (d.spawnWatch _ _ result.toOption).unlock) ?_ rfl
    exact { h.setTask (t := ⟨_, _, result.toOption, 1, .entering⟩) rfl with }
  | unfile at_ | cancel at_ | drain at_ | cancelOne at_ =>
    refine Recalling.release ?_ rfl
    exact { h with }
  | clear at_ =>
    exact Recalling.release (d := ServiceDirectory.unlock { d with snapshots := ∅ })
      { h with snapshots := fun _ _ hlist => by simp at hlist } rfl
  | _ => exact h.release rfl

theorem Recalling.step (h : d.Recalling disk) {l : DirectoryLabel} (hl : Down l)
    (hstep : d.step l = some d') : d'.Recalling disk := by
  cases move_of_step hstep with
  | call move => exact h.callMove hl move
  | drop suspended =>
    refine Recalling.release ?_ rfl
    exact { h with }
  | @task k t _ _ ht move =>
    cases move with
    | event event at_ => exact hl.elim
    | listed latest at_ => exact hl.elim
    | apply at_ | reset at_ =>
      have hnone := h.tasks k t ht
      simp [WatchTask.pending, at_] at hnone
    | _ => exact h.setTask rfl
  | apply name event => exact hl.elim
  | persist written pending => simp [h.written] at pending

end ServiceDirectory

namespace Process

open ServiceDirectory

variable {p p' : Process} {name : String} {disk : Disk} {w v : List LifeLabel}

/-- While the registry is down, the process makes no step that applies an event. -/
def Idle : LifeLabel → Prop
  | .alive l => Down l
  | .swap _ => False
  | _ => True

/-- A process that has come back: all it knows is on disk, and it has no writes to spawn. -/
def Back (disk : Disk) (p : Process) : Prop := p.directory.Recalling disk ∧ p.unspawned = []

theorem Back.step (h : p.Back disk) {l : LifeLabel} (hl : Idle l) (hstep : p.step l = some p') :
    p'.Back disk := by
  cases l with
  | alive l =>
    obtain ⟨d, hd, rfl⟩ := Option.map_eq_some_iff.mp hstep
    exact ⟨h.1.step hl hd, h.2⟩
  | swap l => exact hl.elim
  | spawn n => simp [Process.step, h.2] at hstep
  | restart =>
    obtain rfl := Option.some.inj hstep
    rw [h.1.cached, h.1.disk_eq]
    exact ⟨recalling_start disk, rfl⟩

/-- With nothing waiting, nothing to be spawned, and no list on its way, the files hold what is in
memory. -/
theorem Follows.load_eq (h : p.Follows) (hdone : p.directory.persists = [])
    (hspawned : p.unspawned = [])
    (hhand : ∀ i name list, p.directory.calls i ≠ .inserting name list)
    {list : List ServiceInstance} (hlist : p.directory.snapshots.lookup name = some list) :
    p.directory.disk.load name = some list := by
  rcases h.due name list hlist with ⟨q, hq, -⟩ | ⟨latest, hlatest, rfl | ⟨i, hi⟩⟩
  · simp [hspawned] at hq
  · rwa [flushed, hdone] at hlatest
  · exact absurd hi (hhand i name latest)

/-- **What was known is known again.**  Let a process, with its writes carried out in order and
every list that is taken over or spawned being due, be killed with nothing waiting, nothing to be
spawned and no list on its way.  Then, while the registry is down, and however often the process is
started again, nothing else is known of a service that was known before, and a load that falls back
on the disk finds that. -/
theorem recalled (hexact : disk.Exact) (hw : ∀ l ∈ w, InOrder l)
    (hdue : EachStep step Due (start true disk) w) (hrun : run step (start true disk) w = some p)
    (hdone : p.directory.persists = []) (hspawned : p.unspawned = [])
    (hhand : ∀ i name list, p.directory.calls i ≠ .inserting name list) (hv : ∀ l ∈ v, Idle l)
    (hrun' : run step p (.restart :: v) = some p') {known : List ServiceInstance}
    (hknown : p.directory.snapshots.lookup name = some known) :
    (∀ list, p'.directory.Knows name list → list = known)
      ∧ ∀ i err, p'.directory.calls i = .recovering name err →
        (p'.step (.alive (.call i (.recovered (some known))))).isSome := by
  have hfollows : p.Follows := invariant_run (C := fun p l => Due p l ∧ InOrder l)
    (fun _ _ _ h hl hstep => (h.step_iff hl.2 hstep).mpr hl.1) (follows_start hexact)
    (hdue.and (eachStep_of_forall_mem hw)) hrun
  have hfile : p.directory.disk.load name = some known :=
    hfollows.load_eq hdone hspawned hhand hknown
  obtain ⟨p₁, hrestart, hrest⟩ := run_cons_eq_some.mp hrun'
  have hstart : p₁.Back p.directory.disk := by
    obtain rfl := Option.some.inj hrestart
    rw [hfollows.cached]
    exact ⟨recalling_start _, rfl⟩
  obtain ⟨hend, -⟩ : p'.Back p.directory.disk := invariant_run (C := fun _ => Idle)
    (fun _ _ _ h hl hstep => h.step hl hstep) hstart (eachStep_of_forall_mem hv) hrest
  refine ⟨fun list hlist => ?_, fun i err at_ => ?_⟩
  · have hlisted : p.directory.disk.load name = some list := by
      rcases hlist with hsnapshot | ⟨i, hheld⟩
      · exact hend.snapshots name list hsnapshot
      · exact hend.calls i name list hheld
    exact Option.some.inj (hlisted.symm.trans hfile)
  · simp [step, ServiceDirectory.step, at_, callStep, hend.cached, hend.disk_eq, hfile]

/-- A load whose listing fails. -/
def failing : List LifeLabel :=
  [.alive (.call 0 (.loadOrWatch "order-svc")), .alive (.call 0 .read), .alive (.call 0 .lock),
    .alive (.call 0 (.listed (.error (.connection "refused"))))]

/-- `recalled` for the two instances. -/
theorem recalled_failing : ∃ p p', run step (start true ∅) writing = some p
    ∧ run step p (.restart :: failing) = some p'
    ∧ (p'.step (.alive (.call 0 (.recovered
      (p.directory.snapshots.lookup "order-svc"))))).isSome := by
  obtain ⟨p, hrun⟩ : ∃ p, run step (start true ∅) writing = some p := ⟨_, rfl⟩
  obtain ⟨p', hrun'⟩ : ∃ p', run step p (.restart :: failing) = some p' := ⟨_, rfl⟩
  obtain ⟨hdone, hspawned⟩ : p.directory.persists = [] ∧ p.unspawned = [] := by
    obtain rfl := Option.some.inj hrun
    exact ⟨rfl, rfl⟩
  have hhand : ∀ i name list, p.directory.calls i ≠ .inserting name list := by
    obtain rfl := Option.some.inj hrun
    exact fun _ _ _ h => by cases h
  obtain ⟨known, hknown⟩ : ∃ known, p.directory.snapshots.lookup "order-svc" = some known := by
    obtain rfl := Option.some.inj hrun
    exact ⟨_, rfl⟩
  have at_ : p'.directory.calls 0 = .recovering "order-svc" (.connection "refused") := by
    obtain rfl := Option.some.inj hrun'
    rfl
  refine ⟨p, p', hrun, hrun', ?_⟩
  rw [hknown]
  exact (recalled (fun _ => rfl) inOrder_writing due_writing hrun hdone hspawned hhand
    (by simp [failing, Idle, Down]) hrun' hknown).2 0 _ at_

end Process

end PecsRegistry
