import PecsRegistry.Directory.Moves
import PecsRegistry.Machinery.Follower

/-!
# Directory/Following — a watch task with an open stream is a follower

The snapshot of a service, its watch task and the stream the task owns are a follower
(`Source.follower`) of the registry's map of that service: the registry's writes join the stream,
the task takes them off and delivers them with `apply_event`, and a reconcile lists the map and
applies the listing as a reset.  What this asks of a registry is a `Source`; `Source.step` is the
simulation, for steps that leave the snapshot to the watch task and the stream open.
-/

namespace PecsRegistry

open Transition Writes

variable {σ ω : Type} {P : Provider σ ω} {name : String} {r k : ℕ}

/-- What stream `r` of a service promises while it is open: it carries the writes of the service's
map, in order, and `list_instances` reads the map.  `Fair op reg` says that the operation `op`,
which left the registry `reg`, does not break the promise. -/
structure Source (P : Provider σ ω) (name : String) (r : ℕ) where
  Open : σ → Prop
  origin : σ → String → Option ServiceInstance
  backlog : σ → List (Write String ServiceInstance)
  writes : ω → List (Write String ServiceInstance)
  Fair : ω → σ → Prop
  act : ∀ {reg reg' op}, Open reg → P.act reg op = some reg' → Fair op reg' →
    Open reg' ∧ origin reg' = replay (writes op) (origin reg)
      ∧ backlog reg' = backlog reg ++ writes op
  deliver : ∀ {reg reg' event}, Open reg → P.answer reg (.next r (some event)) = some reg' →
    Open reg' ∧ origin reg' = origin reg ∧ backlog reg = event.write :: backlog reg'
  listed : ∀ {reg reg' list}, P.answer reg (.list name (.ok list)) = some reg' →
    reg' = reg ∧ byId list = origin reg
  unlisted : ∀ reg err, P.answer reg (.list name (.error err)) = none

/-- The steps of the watch task, as long as its stream does not end, of the registry's users and of
the disk writers. -/
def Following (k : ℕ) : DirectoryLabel ⊕ ω → Prop
  | .inl (.task k' l) => k' = k ∧ l ≠ .next none
  | .inl (.persist _ _) => True
  | .inl _ => False
  | .inr _ => True

namespace Source

variable (S : Source P name r) {sys sys' : Deployment σ} {w : List (DirectoryLabel ⊕ ω)}

/-- Task `k` owns the stream, which is open; or it has stopped. -/
structure Subscribed (k : ℕ) (sys : Deployment σ) : Prop where
  task : ∃ t, sys.directory.tasks k = some t ∧ t.name = name
    ∧ (t.stream = some r ∨ t.state = .stopped)
  isOpen : S.Open sys.registry

/-- The writes on their way to the snapshot: the event the task has taken, and the stream. -/
def undelivered (k : ℕ) (sys : Deployment σ) : List (Write String ServiceInstance) :=
  (((sys.directory.tasks k).bind WatchTask.taken).map ServiceEvent.write).toList
    ++ S.backlog sys.registry

/-- The map, the snapshot, the stream and the pending listing of the service, as a follower. -/
def follower (k : ℕ) (sys : Deployment σ) : Follower String ServiceInstance where
  origin := S.origin sys.registry
  copy := byId (sys.directory.getInstances name)
  backlog := S.undelivered k sys
  listing := ((sys.directory.tasks k).bind WatchTask.latest).map byId

/-- What a step means to the follower. -/
def shadow : DirectoryLabel ⊕ ω → List (FollowerLabel String ServiceInstance)
  | .inl (.task _ .apply) => [.deliver]
  | .inl (.task _ (.listed (.ok _))) => [.list]
  | .inl (.task _ .reset) => [.reset]
  | .inl _ => []
  | .inr op => (S.writes op).map .update

/-- The registry's users break no promise. -/
def Fairly (sys : Deployment σ) (l : DirectoryLabel ⊕ ω) : Prop :=
  ∀ op, l = .inr op → ∀ sys' ∈ P.step sys l, S.Fair op sys'.registry

variable {S}

/-- The task moves on its own: nothing changes for the follower. -/
theorem Subscribed.setTask (h : S.Subscribed k sys) {t t' : WatchTask}
    (ht : sys.directory.tasks k = some t) (hname : t'.name = t.name)
    (hstream : t'.stream = some r ∨ t'.state = .stopped) (hidle : t.pending = none)
    (hidle' : t'.pending = none) :
    S.Subscribed k ⟨sys.directory.setTask k t', sys.registry⟩
      ∧ S.follower k ⟨sys.directory.setTask k t', sys.registry⟩ = S.follower k sys := by
  obtain ⟨t₀, ht₀, hname₀, -⟩ := h.task
  obtain rfl : t = t₀ := Option.some.inj (ht.symm.trans ht₀)
  obtain ⟨htaken, hlatest⟩ := WatchTask.pending_eq_none.mp hidle
  obtain ⟨htaken', hlatest'⟩ := WatchTask.pending_eq_none.mp hidle'
  refine ⟨⟨⟨t', Function.update_self .., hname.trans hname₀, hstream⟩, h.isOpen⟩, ?_⟩
  rw [follower, follower, undelivered, undelivered, ServiceDirectory.setTask_tasks,
    Function.update_self, ht]
  simp only [Option.bind_some, htaken, htaken', hlatest, hlatest']
  rfl

/-- The next event of the stream is taken: it is still to be delivered. -/
theorem Subscribed.take (h : S.Subscribed k sys) {t : WatchTask}
    (ht : sys.directory.tasks k = some t) (hname : t.name = name) (at_ : t.state = .selecting r)
    {event : ServiceEvent} {reg' : σ}
    (hreply : P.answer sys.registry (.next r (some event)) = some reg') :
    S.Subscribed k ⟨sys.directory.setTask k { t with state := .applying r event }, reg'⟩
      ∧ S.follower k ⟨sys.directory.setTask k { t with state := .applying r event }, reg'⟩
        = S.follower k sys := by
  obtain ⟨hopen, horigin, hbacklog⟩ := S.deliver h.isOpen hreply
  refine ⟨⟨⟨_, Function.update_self .., hname, .inl rfl⟩, hopen⟩, ?_⟩
  rw [follower, follower, undelivered, undelivered, horigin, hbacklog,
    ServiceDirectory.setTask_tasks, Function.update_self, ht]
  simp only [Option.bind_some, WatchTask.taken, WatchTask.latest, at_]
  rfl

/-- The event is applied: the follower is delivered its write. -/
theorem Subscribed.apply (h : S.Subscribed k sys) {t : WatchTask}
    (ht : sys.directory.tasks k = some t) (hname : t.name = name) {event : ServiceEvent}
    (at_ : t.state = .applying r event) :
    S.Subscribed k ⟨(sys.directory.applyEvent t.name event).setTask k
        { t with state := .selecting r }, sys.registry⟩
      ∧ run Follower.step (S.follower k sys) [.deliver] = some (S.follower k
        ⟨(sys.directory.applyEvent t.name event).setTask k
          { t with state := .selecting r }, sys.registry⟩) := by
  have hcopy : byId (((sys.directory.applyEvent t.name event).setTask k
      { t with state := .selecting r }).getInstances name)
        = event.write.apply (byId (sys.directory.getInstances name)) := by
    rw [← newList_byId, ← hname]
    exact congrArg byId
      ((sys.directory.getInstances_applyEvent t.name t.name _).trans (if_pos rfl))
  refine ⟨⟨⟨_, Function.update_self .., hname, .inl rfl⟩, h.isOpen⟩, ?_⟩
  rw [follower, follower, hcopy, undelivered, undelivered, ServiceDirectory.setTask_tasks,
    Function.update_self, ht]
  simp only [Option.bind_some, WatchTask.taken, WatchTask.latest, at_]
  rfl

/-- A listing has come back: the follower has it at hand. -/
theorem Subscribed.listed (h : S.Subscribed k sys) {t : WatchTask}
    (ht : sys.directory.tasks k = some t) (hname : t.name = name) (at_ : t.state = .reconciling r)
    {latest : List ServiceInstance} {reg' : σ}
    (hreply : P.answer sys.registry (.list name (.ok latest)) = some reg') :
    S.Subscribed k ⟨sys.directory.setTask k { t with state := .resetting r latest }, reg'⟩
      ∧ run Follower.step (S.follower k sys) [.list] = some (S.follower k
        ⟨sys.directory.setTask k { t with state := .resetting r latest }, reg'⟩) := by
  obtain ⟨rfl, hlist⟩ := S.listed hreply
  refine ⟨⟨⟨_, Function.update_self .., hname, .inl rfl⟩, h.isOpen⟩, ?_⟩
  rw [follower, follower, undelivered, undelivered, ServiceDirectory.setTask_tasks,
    Function.update_self, ht]
  simp only [Option.bind_some, WatchTask.taken, WatchTask.latest, at_, Option.map_some, hlist]
  rfl

/-- The listing is applied: the follower starts over from it. -/
theorem Subscribed.reset (h : S.Subscribed k sys) {t : WatchTask}
    (ht : sys.directory.tasks k = some t) (hname : t.name = name) {latest : List ServiceInstance}
    (at_ : t.state = .resetting r latest) :
    S.Subscribed k ⟨(sys.directory.applyEvent t.name (.reset latest)).setTask k
        { t with state := .selecting r }, sys.registry⟩
      ∧ run Follower.step (S.follower k sys) [.reset] = some (S.follower k
        ⟨(sys.directory.applyEvent t.name (.reset latest)).setTask k
          { t with state := .selecting r }, sys.registry⟩) := by
  have hcopy : byId (((sys.directory.applyEvent t.name (.reset latest)).setTask k
      { t with state := .selecting r }).getInstances name) = byId latest := by
    rw [← hname]
    exact congrArg byId
      ((sys.directory.getInstances_applyEvent t.name t.name _).trans (if_pos rfl))
  refine ⟨⟨⟨_, Function.update_self .., hname, .inl rfl⟩, h.isOpen⟩, ?_⟩
  rw [follower, follower, hcopy, undelivered, undelivered, ServiceDirectory.setTask_tasks,
    Function.update_self, ht]
  simp only [Option.bind_some, WatchTask.taken, WatchTask.latest, at_]
  rfl

/-- **A step of the watch task** is silent, or delivers, lists or resets. -/
theorem Subscribed.task_step (h : S.Subscribed k sys) {l : TaskLabel} (hl : l ≠ .next none)
    (hstep : P.step sys (.inl (.task k l)) = some sys') :
    S.Subscribed k sys' ∧ run Follower.step (S.follower k sys) (S.shadow (.inl (.task k l)))
      = some (S.follower k sys') := by
  obtain ⟨d', reg'⟩ := sys'
  obtain ⟨hreply, hdir⟩ := Provider.step_inl_eq_some.mp hstep
  obtain ⟨t, ht, hname, hstream⟩ := h.task
  obtain ⟨t', ht', move⟩ : ∃ t', sys.directory.tasks k = some t'
      ∧ ServiceDirectory.TaskMove sys.directory k t' l d' := by
    cases ServiceDirectory.move_of_step hdir with
    | task ht' move => exact ⟨_, ht', move⟩
  obtain rfl := Option.some.inj (ht.symm.trans ht')
  replace hreply : P.reply sys.registry (t.query l) = some reg' := by
    simpa [ServiceDirectory.query, ht] using hreply
  -- a silent move: the task changes state, the registry is not asked
  have hsilent : ∀ t'', some sys.registry = some reg' → t''.name = t.name →
      (t''.stream = some r ∨ t''.state = .stopped) → t.pending = none → t''.pending = none →
      S.Subscribed k ⟨sys.directory.setTask k t'', reg'⟩ ∧ run Follower.step (S.follower k sys) []
        = some (S.follower k ⟨sys.directory.setTask k t'', reg'⟩) := by
    intro t'' hreg hn hs hidle hidle'
    obtain rfl := Option.some.inj hreg
    obtain ⟨hsub, heq⟩ := h.setTask ht hn hs hidle hidle'
    exact ⟨hsub, congrArg some heq.symm⟩
  cases move with
  | leave at_ stop => exact hsilent _ hreply rfl (.inr rfl) (by rw [WatchTask.pending, at_]) rfl
  | first at_ live initial =>
    have hr : t.stream = some r := hstream.resolve_right (by simp [at_])
    have hr' := initial.symm.trans (by simpa [WatchTask.stream, at_] using hr)
    exact hsilent _ hreply rfl (.inl hr') (by rw [WatchTask.pending, at_]) rfl
  | watch at_ live initial => simp [WatchTask.stream, at_, initial] at hstream
  | watched stream at_ => simp [WatchTask.stream, at_] at hstream
  | watchFailed err at_ => simp [WatchTask.stream, at_] at hstream
  | cancelledAsleep at_ stop => simp [WatchTask.stream, at_] at hstream
  | slept at_ => simp [WatchTask.stream, at_] at hstream
  | primed at_ =>
    exact hsilent _ hreply rfl (.inl (by simpa [WatchTask.stream, at_] using hstream))
      (by rw [WatchTask.pending, at_]) rfl
  | cancelled at_ stop =>
    exact hsilent _ hreply rfl (.inr rfl) (by rw [WatchTask.pending, at_]) rfl
  | tick at_ =>
    exact hsilent _ hreply rfl (.inl (by simpa [WatchTask.stream, at_] using hstream))
      (by rw [WatchTask.pending, at_]) rfl
  | @event stream event at_ =>
    obtain rfl : stream = r := by simpa [WatchTask.stream, at_] using hstream
    rw [WatchTask.query, at_] at hreply
    obtain ⟨hsub, heq⟩ := h.take ht hname at_ hreply
    exact ⟨hsub, congrArg some heq.symm⟩
  | @apply stream event at_ =>
    obtain rfl : stream = r := by simpa [WatchTask.stream, at_] using hstream
    obtain rfl : sys.registry = reg' := Option.some.inj hreply
    exact h.apply ht hname at_
  | ended at_ => exact absurd rfl hl
  | @listed stream latest at_ =>
    obtain rfl : stream = r := by simpa [WatchTask.stream, at_] using hstream
    exact h.listed ht hname at_ (hname ▸ hreply)
  | listFailed err at_ =>
    have := S.unlisted sys.registry err
    simp [WatchTask.query, Provider.reply, hname, this] at hreply
  | @reset stream latest at_ =>
    obtain rfl : stream = r := by simpa [WatchTask.stream, at_] using hstream
    obtain rfl : sys.registry = reg' := Option.some.inj hreply
    exact h.reset ht hname at_

/-- **The simulation.**  A step that leaves the snapshot to the watch task and the stream open is
what its shadow makes of the follower. -/
theorem Subscribed.step (h : S.Subscribed k sys) {l : DirectoryLabel ⊕ ω} (hl : Following k l)
    (hfair : S.Fairly sys l) (hstep : P.step sys l = some sys') :
    S.Subscribed k sys' ∧ run Follower.step (S.follower k sys) (S.shadow l)
      = some (S.follower k sys') := by
  match l with
  | .inr op =>
    obtain ⟨hact, hdir⟩ := Provider.step_inr_eq_some.mp hstep
    obtain ⟨hopen, horigin, hbacklog⟩ := S.act h.isOpen hact (hfair op rfl _ hstep)
    refine ⟨⟨hdir ▸ h.task, hopen⟩, ?_⟩
    rw [shadow, Follower.run_updates, follower, follower, horigin, undelivered, undelivered,
      hbacklog, hdir, List.append_assoc]
  | .inl (.task k' l) =>
    obtain ⟨rfl, hnext⟩ := hl
    exact h.task_step hnext hstep
  | .inl (.persist n written) =>
    obtain ⟨d', reg'⟩ := sys'
    obtain ⟨hreply, hdir⟩ := Provider.step_inl_eq_some.mp hstep
    obtain rfl : sys.registry = reg' := Option.some.inj hreply
    cases ServiceDirectory.move_of_step hdir with
    | persist written pending => exact ⟨⟨h.task, h.isOpen⟩, rfl⟩

/-! ## Runs from a fresh stream -/

variable (S)

/-- Task `k` has just got the stream, open and empty, and has nothing to apply. -/
structure Established (k : ℕ) (sys : Deployment σ) : Prop where
  task : ∃ t, sys.directory.tasks k = some t ∧ t.name = name ∧ t.stream = some r ∧ t.pending = none
  isOpen : S.Open sys.registry
  backlog : S.backlog sys.registry = []

variable {S}

theorem Established.subscribed (h : S.Established k sys) : S.Subscribed k sys := by
  obtain ⟨t, ht, hname, hstream, -⟩ := h.task
  exact ⟨⟨t, ht, hname, .inl hstream⟩, h.isOpen⟩

theorem Subscribed.run (h : S.Subscribed k sys) (hw : ∀ l ∈ w, Following k l)
    (hfair : EachStep P.step S.Fairly sys w) (hrun : Transition.run P.step sys w = some sys') :
    S.Subscribed k sys' ∧ Transition.run Follower.step (S.follower k sys) (w.flatMap S.shadow)
      = some (S.follower k sys') :=
  run_shadow (S.follower k) S.shadow (fun _ _ _ hsub hl hstep => hsub.step hl.1 hl.2 hstep) h
    ((eachStep_of_forall_mem hw).and hfair) hrun

theorem undelivered_eq_nil : S.undelivered k sys = []
    ↔ (sys.directory.tasks k).bind WatchTask.taken = none ∧ S.backlog sys.registry = [] := by
  rw [undelivered, List.append_eq_nil_iff, Option.toList_eq_nil_iff, Option.map_eq_none_iff]

/-- The follower begins with nothing on its way. -/
theorem Established.opened (h : S.Established k sys) :
    (S.follower k sys).backlog = [] ∧ (S.follower k sys).listing = none := by
  obtain ⟨t, ht, -, -, hidle⟩ := h.task
  obtain ⟨htaken, hlatest⟩ := WatchTask.pending_eq_none.mp hidle
  refine ⟨undelivered_eq_nil.mpr ⟨by rw [ht, Option.bind_some, htaken], h.backlog⟩, ?_⟩
  rw [follower, ht, Option.bind_some, hlatest, Option.map_none]

/-- **What a drained stream has brought.**  A key of the snapshot is right if and only if it was
right when the stream was established, or has been written or reset since. -/
theorem Established.agree_iff (h : S.Established k sys) (hw : ∀ l ∈ w, Following k l)
    (hfair : EachStep P.step S.Fairly sys w) (hrun : Transition.run P.step sys w = some sys')
    (hdrained : S.undelivered k sys' = []) (id : String) :
    byId (sys'.directory.getInstances name) id = S.origin sys'.registry id
      ↔ byId (sys.directory.getInstances name) id = S.origin sys.registry id
        ∨ ∃ l ∈ w.flatMap S.shadow, Follower.Renews id l := by
  obtain ⟨-, hshadow⟩ := h.subscribed.run hw hfair hrun
  exact Follower.agree_iff h.opened.1 h.opened.2 hshadow hdrained id

end Source

end PecsRegistry
