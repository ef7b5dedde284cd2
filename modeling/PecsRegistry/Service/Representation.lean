import PecsRegistry.Directory.Inventory
import PecsRegistry.Service.Local

/-!
# Service/Representation — what a snapshot list always is

A list of the local registry has the instances of one service, each once (`OwnList`): the store
files every instance under its own name and id, a watch stream passes on only what concerns its
service, and `register` applies its upsert to the service of its instance.  So every snapshot of a
service over the local registry is such a list (`snapshots_own`), whatever the order of the steps.
-/

namespace PecsRegistry

open Transition

/-- The instances of one service, with pairwise distinct ids. -/
def OwnList (name : String) (list : List ServiceInstance) : Prop :=
  (∀ inst ∈ list, inst.name = name) ∧ Distinct list

theorem ownList_nil (name : String) : OwnList name [] := ⟨by simp, List.nodup_nil⟩

/-! ## What the receivers keep -/

namespace LocalRegistry

variable {reg reg' : LocalRegistry}

/-- No reset is on its way to a stream. -/
def Plain (reg : LocalRegistry) : Prop :=
  ∀ rx ∈ reg.receivers, ∀ all, ServiceEvent.reset all ∉ rx.queue

/-- A stream keeps its service, and no reset comes up. -/
structure Kept (reg reg' : LocalRegistry) : Prop where
  service : ∀ (r : ℕ) (rx : Receiver), reg.receivers[r]? = some rx →
    ∃ rx', reg'.receivers[r]? = some rx' ∧ rx'.service = rx.service
  plain : reg.Plain → reg'.Plain

theorem Kept.refl (reg : LocalRegistry) : Kept reg reg := ⟨fun _ rx hrx => ⟨rx, hrx, rfl⟩, id⟩

theorem mem_queue_send {event e : ServiceEvent} {rx : Receiver}
    (h : e ∈ (rx.send event).queue) : e ∈ rx.queue ∨ e = event := by
  rw [Receiver.send] at h
  split_ifs at h
  · simpa using h
  · rcases List.mem_append.mp h with htail | hevent
    · exact .inl (List.mem_of_mem_tail htail)
    · exact .inr (List.mem_singleton.mp hevent)

theorem service_send (event : ServiceEvent) (rx : Receiver) :
    (rx.send event).service = rx.service := by
  rw [Receiver.send]
  split_ifs <;> rfl

theorem kept_send {event : ServiceEvent} (hevent : ∀ all, event ≠ .reset all) :
    Kept reg (reg.send event) := by
  constructor
  · intro r rx hrx
    refine ⟨rx.send event, ?_, service_send event rx⟩
    rw [send, List.getElem?_map, hrx]
    rfl
  · rintro hplain _ hrx all hall
    obtain ⟨rx, hmem, rfl⟩ := List.mem_map.mp hrx
    rcases mem_queue_send hall with hold | hnew
    · exact hplain rx hmem all hold
    · exact hevent all hnew.symm

theorem kept_poll {stream : ℕ} {out : Option ServiceEvent}
    (h : reg.poll stream = some (out, reg')) : Kept reg reg' := by
  obtain ⟨rx, rx', hrx, hqueue, hservice, rfl⟩ := poll_frame h
  have hlt : stream < reg.receivers.length := (List.getElem?_eq_some_iff.mp hrx).1
  constructor
  · intro r rx₀ hrx₀
    rcases eq_or_ne stream r with rfl | hne
    · obtain rfl := Option.some.inj (hrx.symm.trans hrx₀)
      exact ⟨rx', List.getElem?_set_self hlt, hservice⟩
    · exact ⟨rx₀, (List.getElem?_set_ne hne).trans hrx₀, rfl⟩
  · intro hplain rx₀ hmem all hall
    rcases List.mem_or_eq_of_mem_set hmem with hold | rfl
    · exact hplain rx₀ hold all hall
    · exact hplain rx (List.mem_of_getElem? hrx) all (hqueue.subset hall)

theorem kept_act {op : LocalOp} (h : reg.act op = some reg') : Kept reg reg' := by
  cases op with
  | addInstance inst =>
    obtain rfl := Option.some.inj h
    have hsend : Kept (reg.file inst) ((reg.file inst).send (.upsert inst)) := kept_send (by simp)
    exact ⟨hsend.service, hsend.plain⟩
  | removeInstance serviceName serviceId =>
    obtain rfl := Option.some.inj h
    have hsend : Kept (reg.unfile serviceName serviceId)
      ((reg.unfile serviceName serviceId).send (.delete serviceName serviceId)) :=
      kept_send (by simp)
    exact ⟨hsend.service, hsend.plain⟩
  | clear =>
    obtain rfl := Option.some.inj h
    exact ⟨(Kept.refl reg).service, id⟩
  | skip stream => exact kept_poll (act_skip h)

theorem answer_list {name : String} {result : RegistryResult (List ServiceInstance)}
    (h : reg.answer (.list name result) = some reg') :
    reg' = reg ∧ ∃ list, result = .ok list ∧ (svcMap reg.store.map name).Values list := by
  cases result with
  | ok list =>
    rw [answer] at h
    split_ifs at h with hvalues
    exact ⟨(Option.some.inj h).symm, list, rfl, hvalues⟩
  | error err => simp [answer] at h

theorem answer_watch {name : String} {result : RegistryResult ℕ}
    (h : reg.answer (.watch name result) = some reg') :
    result = .ok reg.receivers.length
      ∧ reg' = { reg with receivers := reg.receivers ++ [⟨name, [], 0⟩] } := by
  cases result with
  | ok stream =>
    rw [answer] at h
    split_ifs at h with hstream
    exact ⟨congrArg _ hstream, (Option.some.inj h).symm⟩
  | error err => simp [answer] at h

theorem kept_answer {q : Query} (h : reg.answer q = some reg') : Kept reg reg' := by
  rcases q with ⟨name, result⟩ | ⟨name, result⟩ | ⟨stream, _ | event⟩
  · obtain ⟨rfl, -⟩ := answer_list h
    exact .refl _
  · obtain ⟨-, rfl⟩ := answer_watch h
    constructor
    · intro r rx hrx
      exact ⟨rx, (List.getElem?_append_left (List.getElem?_eq_some_iff.mp hrx).1).trans hrx, rfl⟩
    · intro hplain rx hmem all
      rcases List.mem_append.mp hmem with hold | hnew
      · exact hplain rx hold all
      · obtain rfl := List.mem_singleton.mp hnew
        exact List.not_mem_nil
  · simp [answer] at h
  · exact kept_poll (answer_next h)

end LocalRegistry

namespace LocalSystem

open LocalRegistry

variable {s s' : LocalSystem}

theorem kept_act {l : LocalLabel} (h : s.act l = some s') : Kept s.registry s'.registry := by
  cases l with
  | op op =>
    obtain ⟨registry, hact, rfl⟩ := Option.map_eq_some_iff.mp h
    exact LocalRegistry.kept_act hact
  | call i l =>
    cases callMove_of_callStep h with
    | announce at_ => exact kept_send (by simp)
    | withdraw at_ => exact kept_send (by simp)
    | _ => exact ⟨(Kept.refl s.registry).service, id⟩

theorem kept_answer {q : Query} (h : s.answer q = some s') : Kept s.registry s'.registry := by
  obtain ⟨registry, hanswer, rfl⟩ := Option.map_eq_some_iff.mp h
  exact LocalRegistry.kept_answer hanswer

theorem ownList_of_answer {name : String} {list : List ServiceInstance}
    (h : s.answer (.list name (.ok list)) = some s') : OwnList name list := by
  obtain ⟨registry, hanswer, rfl⟩ := Option.map_eq_some_iff.mp h
  obtain ⟨-, list', hlist, hvalues⟩ := answer_list hanswer
  obtain rfl := Except.ok.inj hlist
  exact InstanceStore.distinct_of_values hvalues

/-- An event that a stream yields keeps the lists of its service. -/
theorem keeps_of_next {r : ℕ} {event : ServiceEvent} {rx : Receiver}
    (hplain : s.registry.Plain) (hrx : s.registry.receivers[r]? = some rx)
    (h : s.answer (.next r (some event)) = some s') :
    ServiceDirectory.Keeps OwnList rx.service event := by
  obtain ⟨registry, hanswer, rfl⟩ := Option.map_eq_some_iff.mp h
  obtain ⟨svcName, queue, hrx', hconcerns, rfl⟩ := poll_some (answer_next hanswer)
  obtain rfl := Option.some.inj (hrx.symm.trans hrx')
  intro list hlist
  refine ⟨fun inst hinst => ?_, hlist.2.newList ?_⟩
  · rcases mem_newList hinst with hold | rfl | ⟨all, rfl, -⟩
    · exact hlist.1 inst hold
    · simpa [ServiceEvent.concerns] using hconcerns
    · exact absurd List.mem_cons_self (hplain _ (List.mem_of_getElem? hrx) all)
  · cases event with
    | reset all => exact absurd List.mem_cons_self (hplain _ (List.mem_of_getElem? hrx) all)
    | _ => trivial

end LocalSystem

/-! ## What the deployment keeps -/

open ServiceDirectory LocalSystem

/-- Every list the directory holds is one of its service; no listing has failed; the streams of a
task, its initial one included, belong to its service. -/
structure Represented (sys : Deployment LocalSystem) : Prop where
  holds : sys.directory.Holds OwnList
  listed : ∀ i name err, sys.directory.calls i ≠ .recovering name err
  streams : ∀ k t r, sys.directory.tasks k = some t →
    t.stream = some r ∨ t.initialStream = some r →
    ∃ rx, sys.registry.registry.receivers[r]? = some rx ∧ rx.service = t.name
  plain : sys.registry.registry.Plain

variable {sys sys' : Deployment LocalSystem} {d' : ServiceDirectory} {reg' : LocalSystem}

/-- A registration's upsert keeps the lists of its service. -/
theorem keeps_upsert (inst : ServiceInstance) : Keeps OwnList inst.name (.upsert inst) := by
  refine fun list hlist => ⟨fun i hi => ?_, hlist.2.newList trivial⟩
  rcases mem_newList hi with hold | hnew | ⟨all, hreset, -⟩
  · exact hlist.1 i hold
  · rw [ServiceEvent.upsert.inj hnew]
  · cases hreset

/-- What the registry answers is admitted. -/
theorem Represented.admits (h : Represented sys) {l : DirectoryLabel}
    (happly : LocalService.Announces (.inl l))
    (hreply : LocalSystem.provider.reply sys.registry (sys.directory.query l) = some reg')
    (hstep : sys.directory.step l = some d') : sys.directory.Admits OwnList l := by
  cases move_of_step hstep with
  | @call i l _ move =>
    cases move with
    | listed list at_ =>
      intro name hname
      rw [query, hname] at hreply
      exact ownList_of_answer hreply
    | recovered at_ => exact absurd at_ (h.listed i _ _)
    | _ => trivial
  | @task k t l _ ht move =>
    rw [query, ht, Option.bind_some] at hreply
    cases move with
    | listed latest at_ =>
      intro t' ht'
      obtain rfl := Option.some.inj (ht.symm.trans ht')
      exact ownList_of_answer hreply
    | @event stream event at_ =>
      intro t' ht'
      obtain rfl := Option.some.inj (ht.symm.trans ht')
      obtain ⟨rx, hrx, hservice⟩ := h.streams k t stream ht (.inl (by rw [WatchTask.stream, at_]))
      rw [WatchTask.query, at_] at hreply
      exact hservice ▸ keeps_of_next h.plain hrx hreply
    | _ => trivial
  | apply name event =>
    obtain ⟨inst, rfl, rfl⟩ := happly
    exact keeps_upsert inst
  | _ => trivial

theorem kept_reply {q : Option Query} (h : LocalSystem.provider.reply sys.registry q = some reg') :
    LocalRegistry.Kept sys.registry.registry reg'.registry := by
  cases q with
  | none =>
    obtain rfl := Option.some.inj h
    exact .refl _
  | some q => exact LocalSystem.kept_answer h

/-- A list of the local registry never fails. -/
theorem Represented.listed_step (h : Represented sys) {l : DirectoryLabel}
    (hreply : LocalSystem.provider.reply sys.registry (sys.directory.query l) = some reg')
    (hstep : sys.directory.step l = some d') (i : ℕ) (name : String) (err : RegistryError) :
    d'.calls i ≠ .recovering name err := by
  intro hi
  cases move_of_step hstep with
  | @call j l _ move =>
    rcases eq_or_ne i j with rfl | hne
    · cases move with
      | listFailed err at_ =>
        rw [query, at_] at hreply
        cases hreply
      | _ => simp at hi
    · rw [move.calls_of_ne hne] at hi
      exact h.listed i name err hi
  | @drop j suspended =>
    rcases eq_or_ne i j with rfl | hne
    · simp at hi
    · exact h.listed i name err (by simpa [hne] using hi)
  | @task k t l _ ht move =>
    obtain ⟨t', -, -, -, -, -, -, -, -, hcalls, -⟩ := move.frame
    exact h.listed i name err (hcalls ▸ hi)
  | _ => exact h.listed i name err hi

/-- The registry opens the stream that a `watch` returns. -/
theorem receiver_of_watch {s s' : LocalSystem} {name : String} {result : RegistryResult ℕ}
    (h : s.answer (.watch name result) = some s') {r : ℕ} (hr : result.toOption = some r) :
    ∃ rx, s'.registry.receivers[r]? = some rx ∧ rx.service = name := by
  obtain ⟨registry, hanswer, rfl⟩ := Option.map_eq_some_iff.mp h
  obtain ⟨rfl, rfl⟩ := LocalRegistry.answer_watch hanswer
  obtain rfl := Option.some.inj hr
  exact ⟨⟨name, [], 0⟩, by simp, rfl⟩

theorem Represented.streams_step (h : Represented sys) {l : DirectoryLabel}
    (hreply : LocalSystem.provider.reply sys.registry (sys.directory.query l) = some reg')
    (hstep : sys.directory.step l = some d') {k r : ℕ} {t : WatchTask} (ht : d'.tasks k = some t)
    (hr : t.stream = some r ∨ t.initialStream = some r) :
    ∃ rx, reg'.registry.receivers[r]? = some rx ∧ rx.service = t.name := by
  have hold : ∀ t₀, sys.directory.tasks k = some t₀ →
      t₀.stream = some r ∨ t₀.initialStream = some r → t₀.name = t.name →
      ∃ rx, reg'.registry.receivers[r]? = some rx ∧ rx.service = t.name := by
    intro t₀ ht₀ hr₀ hname
    obtain ⟨rx, hrx, hservice⟩ := h.streams k t₀ r ht₀ hr₀
    obtain ⟨rx', hrx', hservice'⟩ := (kept_reply hreply).service r rx hrx
    exact ⟨rx', hrx', hservice'.trans (hservice.trans hname)⟩
  cases move_of_step hstep with
  | @call i l _ move =>
    cases move with
    | subscribed result at_ =>
      rcases eq_or_ne k sys.directory.nextTask with rfl | hne
      · obtain rfl : _ = t := by simpa using ht
        rw [query, at_] at hreply
        exact receiver_of_watch hreply (or_self_iff.mp hr)
      · exact hold t (by simpa [hne] using ht) hr rfl
    | _ => exact hold t ht hr rfl
  | @task j t₀ l _ ht₀ move =>
    rcases eq_or_ne k j with rfl | hne
    · cases move with
      | first at_ live initial =>
        obtain rfl : _ = t := by simpa using ht
        exact hold t₀ ht₀ (.inr (by simpa [WatchTask.stream, initial] using hr)) rfl
      | watched stream at_ =>
        obtain rfl : _ = t := by simpa using ht
        rw [query, ht₀] at hreply
        exact hr.elim (receiver_of_watch hreply) fun hinitial => hold t₀ ht₀ (.inr hinitial) rfl
      | _ =>
        obtain rfl : _ = t := by simpa using ht
        exact hold t₀ ht₀ (by simp_all [WatchTask.stream]) rfl
    · obtain ⟨t', htasks, -⟩ := move.frame
      exact hold t (by rwa [htasks, Function.update_of_ne hne] at ht) hr rfl
  | _ => exact hold t ht hr rfl

/-- **The deployment keeps its representation.** -/
theorem Represented.step (h : Represented sys) {l : DirectoryLabel ⊕ LocalLabel}
    (hl : LocalService.Announces l) (hstep : LocalSystem.provider.step sys l = some sys') :
    Represented sys' := by
  cases l with
  | inl l =>
    obtain ⟨hreply, hdir⟩ := Provider.step_inl_eq_some.mp hstep
    exact ⟨h.holds.step ownList_nil (h.admits hl hreply hdir) hdir, h.listed_step hreply hdir,
      fun _ _ _ ht hr => h.streams_step hreply hdir ht hr, (kept_reply hreply).plain h.plain⟩
  | inr l =>
    obtain ⟨hact, hdir⟩ := Provider.step_inr_eq_some.mp hstep
    have hkept := LocalSystem.kept_act hact
    refine ⟨hdir ▸ h.holds, hdir ▸ h.listed, fun k t r ht hr => ?_, hkept.plain h.plain⟩
    obtain ⟨rx, hrx, hservice⟩ := h.streams k t r (hdir ▸ ht) hr
    obtain ⟨rx', hrx', hservice'⟩ := hkept.service r rx hrx
    exact ⟨rx', hrx', hservice'.trans hservice⟩

/-! ## Runs of the service -/

theorem represented_start (diskCache : Bool) (disk : Disk) :
    Represented (LocalService.start diskCache disk).deployment where
  holds := holds_withOptions diskCache disk
  listed i name err := by simp [LocalService.start, withOptions]
  streams k t r ht := by simp [LocalService.start, withOptions] at ht
  plain rx hrx := by simp [LocalService.start, LocalSystem.new, LocalRegistry.new] at hrx

/-- **Every snapshot is a list of its own service, without repeated ids**, in every state of every
run of a service over the local registry. -/
theorem snapshots_own (diskCache : Bool) (disk : Disk)
    (w : List LocalServiceLabel) :
    EachState LocalService.step
      (fun s => ∀ name, OwnList name (s.deployment.directory.getInstances name))
      (LocalService.start diskCache disk) w := by
  have hrepresented : EachState LocalService.step (fun s => Represented s.deployment)
      (LocalService.start diskCache disk) w := by
    refine eachState_of_invariant (C := fun _ _ => True) (fun s l s' h _ hstep => ?_)
      (represented_start diskCache disk) (eachStep_of_forall_mem fun _ _ => trivial)
    obtain ⟨l', hstep', hl'⟩ := LocalService.deployment_step hstep
    exact h.step hl' hstep'
  exact hrepresented.imp fun s h => h.holds.getInstances ownList_nil

end PecsRegistry
