import PecsRegistry.Directory.System

/-!
# Directory/Moves — what one step of the directory can do

`CallMove` and `TaskMove` list the moves of `callStep` and `taskStep`, one constructor each, with
the guard the move was taken under.  Every invariant of the directory is a case analysis on them.
-/

namespace PecsRegistry

namespace ServiceDirectory

variable {d d' : ServiceDirectory} {i k : ℕ}

/-- The moves of a call. -/
inductive CallMove (d : ServiceDirectory) (i : ℕ) : CallLabel → ServiceDirectory → Prop
  | loadOrWatch (name : String) (at_ : d.calls i = .idle) :
      CallMove d i (.loadOrWatch name) (d.setCall i (.starting name))
  | unwatch (name : String) (at_ : d.calls i = .idle) :
      CallMove d i (.unwatch name) (d.setCall i (.unwatching name))
  | shutdown (at_ : d.calls i = .idle) : CallMove d i .shutdown (d.setCall i .shuttingDown)
  | read {name : String} (at_ : d.calls i = .starting name) :
      CallMove d i .read (d.setCall i (.checking name (d.snapshots.lookup name)))
  | fastPath {name : String} {instances : List ServiceInstance}
      (at_ : d.calls i = .checking name (some instances)) (free : d.lockedBy = none)
      (watched : name ∈ d.activeWatches) :
      CallMove d i .lock (d.setCall i (.returned (.ok instances)))
  | slowPath {name : String} {existing : Option (List ServiceInstance)}
      (at_ : d.calls i = .checking name existing) (free : d.lockedBy = none)
      (cold : existing = none ∨ name ∉ d.activeWatches) :
      CallMove d i .lock (d.setCall i (.listing name))
  | listed {name : String} (instances : List ServiceInstance) (at_ : d.calls i = .listing name) :
      CallMove d i (.listed (.ok instances))
        ((d.persistToDisk name instances).setCall i (.inserting name instances))
  | listFailed {name : String} (err : RegistryError) (at_ : d.calls i = .listing name) :
      CallMove d i (.listed (.error err)) (d.setCall i (.recovering name err))
  | recovered {name : String} {err : RegistryError} {instances : List ServiceInstance}
      (at_ : d.calls i = .recovering name err) (cached : d.diskCache = true)
      (onDisk : d.disk.load name = some instances) :
      CallMove d i (.recovered (some instances)) (d.setCall i (.inserting name instances))
  | recoverFailed {name : String} {err : RegistryError} (at_ : d.calls i = .recovering name err) :
      CallMove d i (.recovered none) (d.setCall i (.returned (.error err)))
  | insert {name : String} {instances : List ServiceInstance}
      (at_ : d.calls i = .inserting name instances) :
      CallMove d i .insert ((d.store name instances).setCall i (.ensuring name instances))
  | ensured {name : String} {instances : List ServiceInstance}
      (at_ : d.calls i = .ensuring name instances) (free : d.lockedBy = none)
      (watched : name ∈ d.activeWatches) :
      CallMove d i .lock (d.setCall i (.returned (.ok instances)))
  | enrol {name : String} {instances : List ServiceInstance}
      (at_ : d.calls i = .ensuring name instances) (free : d.lockedBy = none)
      (unwatched : name ∉ d.activeWatches) :
      CallMove d i .lock
        (((d.enrol name).lock i).setCall i (.subscribing name instances d.nextToken))
  | subscribed {name : String} {instances : List ServiceInstance} {token : ℕ}
      (result : RegistryResult ℕ) (at_ : d.calls i = .subscribing name instances token) :
      CallMove d i (.subscribed result)
        ((d.spawnWatch name token result.toOption).unlock.setCall i (.returned (.ok instances)))
  | unfile {name : String} {token : ℕ} (at_ : d.calls i = .unwatching name)
      (free : d.lockedBy = none) (filed : d.activeWatches.lookup name = some token) :
      CallMove d i .lock (({ d with activeWatches := d.activeWatches.erase name }.lock i).setCall i
        (.cancelling token))
  | unfiled {name : String} (at_ : d.calls i = .unwatching name) (free : d.lockedBy = none)
      (absent : d.activeWatches.lookup name = none) :
      CallMove d i .lock (d.setCall i .finished)
  | cancel {token : ℕ} (at_ : d.calls i = .cancelling token) :
      CallMove d i (.cancel token) ((d.cancel token).unlock.setCall i .finished)
  | drain (at_ : d.calls i = .shuttingDown) (free : d.lockedBy = none) :
      CallMove d i .lock (({ d with activeWatches := ∅ }.lock i).setCall i
        (.draining d.activeWatches.values))
  | cancelOne {tokens : Multiset ℕ} {token : ℕ} (at_ : d.calls i = .draining tokens)
      (left : token ∈ tokens) :
      CallMove d i (.cancel token) ((d.cancel token).setCall i (.draining (tokens.erase token)))
  | clear (at_ : d.calls i = .draining 0) :
      CallMove d i .clear ({ d with snapshots := ∅ }.unlock.setCall i .finished)

/-- The moves of a watch task. -/
inductive TaskMove (d : ServiceDirectory) (k : ℕ) (t : WatchTask) :
    TaskLabel → ServiceDirectory → Prop
  | leave (at_ : t.state = .entering) (stop : t.token ∈ d.cancelled) :
      TaskMove d k t .enter (d.setTask k { t with state := .stopped })
  | first {stream : ℕ} (at_ : t.state = .entering) (live : t.token ∉ d.cancelled)
      (initial : t.initialStream = some stream) :
      TaskMove d k t .enter (d.setTask k
        { t with initialStream := none, retryBackoff := 1, state := .priming stream })
  | watch (at_ : t.state = .entering) (live : t.token ∉ d.cancelled)
      (initial : t.initialStream = none) :
      TaskMove d k t .enter (d.setTask k { t with state := .watching })
  | watched (stream : ℕ) (at_ : t.state = .watching) :
      TaskMove d k t (.watched (.ok stream))
        (d.setTask k { t with retryBackoff := 1, state := .priming stream })
  | watchFailed (err : RegistryError) (at_ : t.state = .watching) :
      TaskMove d k t (.watched (.error err)) (d.setTask k { t with state := .backingOff })
  | cancelledAsleep (at_ : t.state = .backingOff) (stop : t.token ∈ d.cancelled) :
      TaskMove d k t .cancelled (d.setTask k { t with state := .stopped })
  | slept (at_ : t.state = .backingOff) :
      TaskMove d k t .slept (d.setTask k
        { t with retryBackoff := min (t.retryBackoff * 2) 10, state := .entering })
  | primed {stream : ℕ} (at_ : t.state = .priming stream) :
      TaskMove d k t .primed (d.setTask k { t with state := .selecting stream })
  | cancelled {stream : ℕ} (at_ : t.state = .selecting stream) (stop : t.token ∈ d.cancelled) :
      TaskMove d k t .cancelled (d.setTask k { t with state := .stopped })
  | tick {stream : ℕ} (at_ : t.state = .selecting stream) :
      TaskMove d k t .tick (d.setTask k { t with state := .reconciling stream })
  | event {stream : ℕ} (event : ServiceEvent) (at_ : t.state = .selecting stream) :
      TaskMove d k t (.next (some event))
        (d.setTask k { t with state := .applying stream event })
  | apply {stream : ℕ} {event : ServiceEvent} (at_ : t.state = .applying stream event) :
      TaskMove d k t .apply
        ((d.applyEvent t.name event).setTask k { t with state := .selecting stream })
  | ended {stream : ℕ} (at_ : t.state = .selecting stream) :
      TaskMove d k t (.next none) (d.setTask k { t with state := .entering })
  | listed {stream : ℕ} (latest : List ServiceInstance) (at_ : t.state = .reconciling stream) :
      TaskMove d k t (.listed (.ok latest))
        (d.setTask k { t with state := .resetting stream latest })
  | listFailed {stream : ℕ} (err : RegistryError) (at_ : t.state = .reconciling stream) :
      TaskMove d k t (.listed (.error err)) (d.setTask k { t with state := .selecting stream })
  | reset {stream : ℕ} {latest : List ServiceInstance} (at_ : t.state = .resetting stream latest) :
      TaskMove d k t .reset
        ((d.applyEvent t.name (.reset latest)).setTask k { t with state := .selecting stream })

theorem callMove_of_callStep {l : CallLabel} (h : d.callStep i (d.calls i) l = some d') :
    CallMove d i l d' := by
  generalize hs : d.calls i = s at h
  revert h
  fun_cases callStep d i s l <;> intro h <;>
    simp only [reduceCtorEq, Option.some.injEq] at h <;> subst h
  case case1 => exact .loadOrWatch _ hs
  case case2 => exact .unwatch _ hs
  case case3 => exact .shutdown hs
  case case4 => exact .read hs
  case case5 free _ watched => exact .fastPath hs free watched
  case case6 free _ cold => exact .slowPath hs free (.inr cold)
  case case7 free => exact .slowPath hs free (.inl rfl)
  case case9 => exact .listed _ hs
  case case10 => exact .listFailed _ hs
  case case11 found => exact .recovered hs found.1 found.2
  case case13 => exact .recoverFailed hs
  case case14 => exact .insert hs
  case case15 free watched => exact .ensured hs free watched
  case case16 free unwatched => exact .enrol hs free unwatched
  case case18 => exact .subscribed _ hs
  case case19 free _ filed => exact .unfile hs free filed
  case case20 free absent => exact .unfiled hs free absent
  case case22 => exact .cancel hs
  case case24 free => exact .drain hs free
  case case26 left => exact .cancelOne hs left
  case case28 => exact .clear hs

theorem taskMove_of_taskStep {t : WatchTask} {l : TaskLabel}
    (h : d.taskStep k t t.state l = some d') : TaskMove d k t l d' := by
  generalize hs : t.state = s at h
  revert h
  fun_cases taskStep d k t s l <;> intro h <;>
    simp only [reduceCtorEq, Option.some.injEq] at h <;> subst h
  case case1 stop => exact .leave hs stop
  case case2 live _ initial => exact .first hs live initial
  case case3 live initial => exact .watch hs live initial
  case case4 => exact .watched _ hs
  case case5 err => exact .watchFailed err hs
  case case6 stop => exact .cancelledAsleep hs stop
  case case8 => exact .slept hs
  case case9 => exact .primed hs
  case case10 stop => exact .cancelled hs stop
  case case12 => exact .tick hs
  case case13 => exact .event _ hs
  case case14 => exact .apply hs
  case case15 => exact .ended hs
  case case16 => exact .listed _ hs
  case case17 err => exact .listFailed err hs
  case case18 => exact .reset hs

/-- A call moves: the others stay where they are. -/
theorem CallMove.calls_of_ne {l : CallLabel} (move : CallMove d i l d') {j : ℕ} (h : j ≠ i) :
    d'.calls j = d.calls j := by
  cases move <;> exact Function.update_of_ne h _ _

/-- A task moves: it keeps its service and its token, and stops only when it is cancelled. -/
theorem TaskMove.frame {t : WatchTask} {l : TaskLabel} (move : TaskMove d k t l d') :
    ∃ t', d'.tasks = Function.update d.tasks k (some t') ∧ t'.name = t.name ∧ t'.token = t.token
      ∧ (t'.state = .stopped → t'.token ∈ d.cancelled)
      ∧ d'.activeWatches = d.activeWatches ∧ d'.lockedBy = d.lockedBy ∧ d'.cancelled = d.cancelled
      ∧ d'.nextToken = d.nextToken ∧ d'.calls = d.calls ∧ d'.nextTask = d.nextTask := by
  cases move with
  | leave _ stop => exact ⟨_, rfl, rfl, rfl, fun _ => stop, rfl, rfl, rfl, rfl, rfl, rfl⟩
  | cancelledAsleep _ stop => exact ⟨_, rfl, rfl, rfl, fun _ => stop, rfl, rfl, rfl, rfl, rfl, rfl⟩
  | cancelled _ stop => exact ⟨_, rfl, rfl, rfl, fun _ => stop, rfl, rfl, rfl, rfl, rfl, rfl⟩
  | _ => exact ⟨_, rfl, rfl, rfl, fun hstop => by simp at hstop, rfl, rfl, rfl, rfl, rfl, rfl⟩

/-- The moves of the directory. -/
inductive Move (d : ServiceDirectory) : DirectoryLabel → ServiceDirectory → Prop
  | call {i : ℕ} {l : CallLabel} {d' : ServiceDirectory} (move : CallMove d i l d') :
      Move d (.call i l) d'
  | drop {i : ℕ} (suspended : (d.calls i).Suspended) :
      Move d (.drop i)
        ({ d with lockedBy := if d.lockedBy = some i then none else d.lockedBy }.setCall i .dropped)
  | task {k : ℕ} {t : WatchTask} {l : TaskLabel} {d' : ServiceDirectory} (task : d.tasks k = some t)
      (move : TaskMove d k t l d') : Move d (.task k l) d'
  | apply (name : String) (event : ServiceEvent) :
      Move d (.apply name event) (d.applyEvent name event)
  | persist {n : ℕ} {name : String} {instances : List ServiceInstance} (written : Bool)
      (pending : d.persists[n]? = some (name, instances)) :
      Move d (.persist n written) { d with
        persists := d.persists.eraseIdx n
        disk := if written then d.disk.write name instances else d.disk }

/-- **Every step of the directory is a move.** -/
theorem move_of_step {l : DirectoryLabel} (h : d.step l = some d') : Move d l d' := by
  cases l with
  | call i l => exact .call (callMove_of_callStep h)
  | drop i =>
    rw [step, dropCall] at h
    split at h
    · obtain rfl := Option.some.inj h
      exact .drop ‹_›
    · exact absurd h (by simp)
  | task k l =>
    obtain ⟨t, ht, hstep⟩ := Option.bind_eq_some_iff.mp h
    exact .task ht (taskMove_of_taskStep hstep)
  | apply name event =>
    obtain rfl := Option.some.inj h
    exact .apply name event
  | persist n written =>
    rw [step] at h
    split at h
    · obtain rfl := Option.some.inj h
      exact .persist written ‹_›
    · exact absurd h (by simp)

/-- A call that another step leaves behind stands where it stood, or has been dropped. -/
theorem call_of_foreign_step {l : DirectoryLabel} (hstep : d.step l = some d')
    (hl : ∀ l', l ≠ .call i l') : d'.calls i = d.calls i ∨ d'.calls i = .dropped := by
  cases move_of_step hstep with
  | @call j l _ move =>
    exact .inl (move.calls_of_ne fun hij => hl l (by rw [hij]))
  | @drop j suspended =>
    rcases eq_or_ne i j with rfl | hne
    · exact .inr (Function.update_self ..)
    · exact .inl (Function.update_of_ne hne _ _)
  | task ht move =>
    obtain ⟨-, -, -, -, -, -, -, -, -, hcalls, -⟩ := move.frame
    exact .inl (by rw [hcalls])
  | _ => exact .inl rfl

/-- A task that another step leaves behind was there before, or has just been spawned. -/
theorem task_of_foreign_step {l : DirectoryLabel} (hstep : d.step l = some d') {t : WatchTask}
    (ht : d'.tasks k = some t) (hl : ∀ l', l ≠ .task k l') :
    d.tasks k = some t ∨ t.state = .entering ∧ t.retryBackoff = 1 := by
  cases move_of_step hstep with
  | @call i l _ move =>
    cases move with
    | subscribed result at_ =>
      rcases eq_or_ne k d.nextTask with rfl | hne
      · obtain rfl : _ = t := by simpa using ht
        exact .inr ⟨rfl, rfl⟩
      · exact .inl (by simpa [hne] using ht)
    | _ => exact .inl ht
  | @task j t' l _ ht' move =>
    have hne : k ≠ j := fun hkj => hl l (by rw [hkj])
    obtain ⟨t'', htasks, -⟩ := move.frame
    exact .inl (by rwa [htasks, Function.update_of_ne hne] at ht)
  | _ => exact .inl ht

end ServiceDirectory

end PecsRegistry
