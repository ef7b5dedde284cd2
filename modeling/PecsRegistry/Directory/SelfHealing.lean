import PecsRegistry.Directory.Following
import PecsRegistry.Provider.Local

/-!
# Directory/SelfHealing — a reconcile heals the snapshot, whatever it held

A stream of the local registry is a `Source` as long as its receiver does not fall behind
(`LocalRegistry.source`).  So once a stream is established, a completed reconcile and a drained
stream make the snapshot of the service equal to the registry's map (`snapshot_healed`): the events
older than the listing that are replayed on top of it end where the registry is.
-/

namespace PecsRegistry

open Transition Writes

namespace LocalRegistry

variable {name : String} {k r : ℕ} {sys sys' : Deployment LocalRegistry}
  {w : List (DirectoryLabel ⊕ LocalOp)}

/-! ## The receiver as a source -/

/-- What an operation broadcasts about a service. -/
def broadcast : LocalOp → Option ServiceEvent
  | .addInstance inst => some (.upsert inst)
  | .removeInstance svc id => some (.delete svc id)
  | _ => none

/-- The writes an operation makes to a service. -/
def writes (name : String) (op : LocalOp) : List (Write String ServiceInstance) :=
  match broadcast op with
  | some event => if event.concerns name then [event.write] else []
  | none => []

/-- The receiver of the stream belongs to the service and has skipped nothing. -/
def Open (name : String) (r : ℕ) (reg : LocalRegistry) : Prop :=
  ∃ rx, reg.receivers[r]? = some rx ∧ rx.service = name ∧ rx.missed = 0

/-- What the stream has yet to deliver. -/
def backlog (r : ℕ) (reg : LocalRegistry) : List (Write String ServiceInstance) :=
  ((reg.receivers[r]?).map Receiver.backlog).getD []

theorem backlog_eq {reg : LocalRegistry} {rx : Receiver} (h : reg.receivers[r]? = some rx) :
    reg.backlog r = rx.backlog := by
  rw [backlog, h]
  rfl

/-- A broadcast reaches every receiver; a stream keeps what concerns its service. -/
theorem open_of_broadcast {event : ServiceEvent} {reg reg' : LocalRegistry} (h : Open name r reg)
    (hreg : reg'.receivers = reg.receivers.map (Receiver.send event)) (hlag : reg'.InStep r) :
    Open name r reg' ∧ reg'.backlog r
      = reg.backlog r ++ if event.concerns name then [event.write] else [] := by
  obtain ⟨rx, hrx, rfl, -⟩ := h
  have hrx' : reg'.receivers[r]? = some (rx.send event) := by rw [hreg, List.getElem?_map, hrx]; rfl
  have hmissed := hlag _ hrx'
  refine ⟨⟨_, hrx', ?_, hmissed⟩, ?_⟩
  · rw [Receiver.send_of_missed_eq_zero hmissed]
  · rw [backlog_eq hrx', backlog_eq hrx, Receiver.backlog_send hmissed]

/-- A stream that polls keeps its receiver open. -/
theorem open_set {reg : LocalRegistry} {stream : ℕ} {rx rx' : Receiver} (h : Open name r reg)
    (hrx : reg.receivers[stream]? = some rx) (hservice : rx'.service = rx.service)
    (hmissed : rx'.missed = 0) : Open name r
      { reg with receivers := reg.receivers.set stream rx' } := by
  obtain ⟨rx₀, hrx₀, hservice₀, hmissed₀⟩ := h
  rcases eq_or_ne stream r with rfl | hne
  · obtain rfl := Option.some.inj (hrx.symm.trans hrx₀)
    exact ⟨rx', List.getElem?_set_self (List.getElem?_eq_some_iff.mp hrx).1,
      hservice.trans hservice₀, hmissed⟩
  · exact ⟨rx₀, (List.getElem?_set_ne hne).trans hrx₀, hservice₀, hmissed₀⟩

theorem backlog_set {reg : LocalRegistry} {stream : ℕ} {rx rx' : Receiver}
    (hrx : reg.receivers[stream]? = some rx) (hbacklog : rx'.backlog = rx.backlog) :
    backlog r { reg with receivers := reg.receivers.set stream rx' } = reg.backlog r := by
  rcases eq_or_ne stream r with rfl | hne
  · rw [backlog_eq hrx, ← hbacklog]
    exact backlog_eq (List.getElem?_set_self (List.getElem?_eq_some_iff.mp hrx).1)
  · rw [backlog, backlog]
    exact congrArg (fun o => (Option.map Receiver.backlog o).getD []) (List.getElem?_set_ne hne)

theorem act_spec {reg reg' : LocalRegistry} {op : LocalOp} (h : Open name r reg)
    (hact : reg.act op = some reg') (hclear : op ≠ .clear) (hlag : reg'.InStep r) :
    Open name r reg' ∧ reg'.view name = replay (writes name op) (reg.view name)
      ∧ reg'.backlog r = reg.backlog r ++ writes name op := by
  cases op with
  | addInstance inst =>
    obtain rfl := Option.some.inj hact
    obtain ⟨hopen, hbacklog⟩ := open_of_broadcast h rfl hlag
    exact ⟨hopen, reg.store.view_upsert inst name, hbacklog⟩
  | removeInstance svc id =>
    obtain rfl := Option.some.inj hact
    obtain ⟨hopen, hbacklog⟩ := open_of_broadcast h rfl hlag
    exact ⟨hopen, reg.store.view_delete svc id name, hbacklog⟩
  | clear => exact absurd rfl hclear
  | skip stream =>
    obtain ⟨rx, rx', hrx, hbacklog, hservice, hmissed, rfl⟩ := poll_none (act_skip hact)
    refine ⟨open_set h hrx hservice hmissed, rfl, ?_⟩
    rw [backlog_set hrx hbacklog]
    exact (List.append_nil _).symm

theorem deliver_spec {reg reg' : LocalRegistry} {event : ServiceEvent} (h : Open name r reg)
    (hnext : reg.answer (.next r (some event)) = some reg') :
    Open name r reg' ∧ reg'.view name = reg.view name
      ∧ reg.backlog r = event.write :: reg'.backlog r := by
  obtain ⟨svc, queue, hrx, hconcerns, rfl⟩ := poll_some (answer_next hnext)
  refine ⟨open_set h hrx rfl rfl, rfl, ?_⟩
  rw [backlog_eq hrx,
    backlog_eq (List.getElem?_set_self (List.getElem?_eq_some_iff.mp hrx).1)]
  simp [Receiver.backlog, Receiver.pending, hconcerns]

/-- **A stream of the local registry is a source**, unless the registry is cleared, which is not
broadcast, or its receiver falls behind; those of other streams may. -/
def source (name : String) (r : ℕ) : Source provider name r where
  Open := Open name r
  origin reg := reg.view name
  backlog := backlog r
  writes := writes name
  Fair op reg := op ≠ .clear ∧ reg.InStep r
  act h hact hfair := act_spec h hact hfair.1 hfair.2
  deliver := deliver_spec
  listed {reg reg' list} h := by
    have hlist : (if (svcMap reg.store.map name).Values list then some reg else none)
      = some reg' := h
    split_ifs at hlist with hvalues
    exact ⟨(Option.some.inj hlist).symm, InstanceStore.byId_of_values hvalues⟩
  unlisted _ _ := rfl

/-! ## Healing -/

/-- The steps of the watch task, and of others that add and remove instances. -/
def Updating (k : ℕ) (l : DirectoryLabel ⊕ LocalOp) : Prop := Following k l ∧ l ≠ .inr .clear

/-- The stream of task `k` has nothing left to deliver, and the task has applied what it took. -/
def Drained (k : ℕ) (sys : Deployment LocalRegistry) : Prop :=
  ∃ t r rx, sys.directory.tasks k = some t ∧ t.stream = some r ∧ t.taken = none
    ∧ sys.registry.receivers[r]? = some rx ∧ rx.pending = []

theorem Drained.undelivered (h : Drained k sys) (hsub : (source name r).Subscribed k sys) :
    (source name r).undelivered k sys = [] := by
  obtain ⟨t, r', rx, ht, hr', htaken, hrx, hpending⟩ := h
  obtain ⟨t', ht', -, hstream⟩ := hsub.task
  obtain rfl := Option.some.inj (ht.symm.trans ht')
  rcases hstream with hr | hstop
  · obtain rfl := Option.some.inj (hr.symm.trans hr')
    refine Source.undelivered_eq_nil.mpr ⟨by rw [ht, Option.bind_some, htaken], ?_⟩
    exact (backlog_eq hrx).trans (by rw [Receiver.backlog, hpending, List.map_nil])
  · simp [WatchTask.stream, hstop] at hr'

/-- Where the map is not cleared and the receiver skips nothing, every step is fair. -/
theorem fairly_of_inStep (hclear : ∀ l ∈ w, l ≠ .inr .clear)
    (hlag : EachState provider.step (fun sys => sys.registry.InStep r) sys w) :
    EachStep provider.step (source name r).Fairly sys w :=
  ((eachStep_of_forall_mem hclear).and hlag.next).imp fun _ _ hl _ hop sys' hstep =>
    ⟨fun hc => hl.1 (hop.trans (congrArg _ hc)), hl.2 sys' hstep⟩

/-- **The snapshot heals.**  From any snapshot, once a reconcile of the established stream has
completed and the stream is drained, the snapshot is the registry's map. -/
theorem snapshot_healed (h : (source name r).Established k sys) (hw : ∀ l ∈ w, Updating k l)
    (hlag : EachState provider.step (fun sys => sys.registry.InStep r) sys w)
    (hrun : run provider.step sys w = some sys') (hreset : .inl (.task k .reset) ∈ w)
    (hdrained : Drained k sys') :
    byId (sys'.directory.getInstances name) = sys'.registry.view name := by
  have hfollowing : ∀ l ∈ w, Following k l := fun l hl => (hw l hl).1
  have hfair : EachStep provider.step (source name r).Fairly sys w :=
    fairly_of_inStep (fun l hl => (hw l hl).2) hlag
  have hsub := (h.subscribed.run hfollowing hfair hrun).1
  funext id
  refine (h.agree_iff hfollowing hfair hrun (hdrained.undelivered hsub) id).mpr
    (.inr ⟨.reset, ?_, trivial⟩)
  exact List.mem_flatMap.mpr ⟨_, hreset, List.mem_singleton.mpr rfl⟩

/-- A registry that holds one order service, with a stream over the payments that nobody polls; a
task has just subscribed to the orders. -/
def twoStreams : Deployment LocalRegistry where
  directory := (ServiceDirectory.withOptions false ∅).setTask 0
    ⟨"order-svc", 0, none, 1, .priming 1⟩
  registry := ⟨.empty |>.insert (ServiceInstance.simple "order-svc" "127.0.0.1" 8080),
    [⟨"pay-svc", List.replicate 128 (.delete "order-svc" ""), 0⟩, ⟨"order-svc", [], 0⟩]⟩

/-- An update before and an update after the listing of a reconcile; both are delivered after the
reset.  The receiver of the other stream has no room for them. -/
def healingRun : List (DirectoryLabel ⊕ LocalOp) :=
  [.inl (.task 0 .primed),
    .inr (.addInstance (ServiceInstance.simple "order-svc" "127.0.0.1" 8081)),
    .inl (.task 0 .tick),
    .inl (.task 0 (.listed (.ok [ServiceInstance.simple "order-svc" "127.0.0.1" 8080,
      ServiceInstance.simple "order-svc" "127.0.0.1" 8081]))),
    .inr (.removeInstance "order-svc" "order-svc-127.0.0.1-8081"),
    .inl (.task 0 .reset),
    .inl (.task 0 (.next (some
      (.upsert (ServiceInstance.simple "order-svc" "127.0.0.1" 8081))))),
    .inl (.task 0 .apply),
    .inl (.task 0 (.next (some (.delete "order-svc" "order-svc-127.0.0.1-8081")))),
    .inl (.task 0 .apply)]

/-- `snapshot_healed` on that run. -/
theorem snapshot_healed_twoStreams :
    ∃ sys', run provider.step twoStreams healingRun = some sys' ∧ ¬ sys'.registry.InStep 0
      ∧ byId (sys'.directory.getInstances "order-svc") = sys'.registry.view "order-svc" := by
  obtain ⟨sys', hrun⟩ : ∃ sys', run provider.step twoStreams healingRun = some sys' := ⟨_, rfl⟩
  refine ⟨sys', hrun, ?_, snapshot_healed (k := 0) (r := 1)
    ⟨⟨_, rfl, rfl, rfl, rfl⟩, ⟨_, rfl, rfl, rfl⟩, rfl⟩ ?_ ?_ hrun ?_ ?_⟩
  · obtain rfl := Option.some.inj hrun
    decide +kernel
  · simp [healingRun, Updating, Following]
  · decide +kernel
  · simp [healingRun]
  · obtain rfl := Option.some.inj hrun
    exact ⟨_, 1, _, rfl, rfl, rfl, rfl, rfl⟩

end LocalRegistry

end PecsRegistry
