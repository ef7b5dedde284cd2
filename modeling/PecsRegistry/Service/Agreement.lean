import PecsRegistry.Provider.Etcd.Freight
import PecsRegistry.Selector.Successor

/-!
# Service/Agreement — clients of one etcd agree

Two clients that watch one etcd see its events at their own pace, reconcile when they like, and hold
whatever they held before.  Once both have reconciled and nothing is on its way to either, they have
the same instances, though perhaps in another order.  Consistent hashing does not look at the order,
so **both route a key to one instance** (`routes_agree`).
-/

namespace PecsRegistry

open Transition Writes LeaseStore

namespace EtcdHub

/-! ## The snapshot of a client -/

section Client

variable {config : RegistryConfig} {name : String} {r k : ℕ} {sys sys' : Deployment EtcdHub}
  {l : DirectoryLabel ⊕ EtcdHubOp} {w : List (DirectoryLabel ⊕ EtcdHubOp)}

/-- A listing of plain keys has distinct ids. -/
theorem distinct_listInstances {etcd : Etcd}
    (hplain : ∀ key value, etcd.values key = some value → Plain config name key value) :
    Distinct (listInstances config etcd name) := by
  rw [listInstances]
  split_ifs
  · refine nodup_map_range fun key key' inst inst' hkey hkey' hvalue hvalue' hid => ?_
    obtain ⟨-, rfl⟩ := hplain key inst hvalue (of_decide_eq_true hkey)
    obtain ⟨-, rfl⟩ := hplain key' inst' hvalue' (of_decide_eq_true hkey')
    rw [hid]
  · exact List.nodup_nil

/-- The watch task follows the service, has only a listing with distinct ids at hand, and its stream
brings no list with an id twice. -/
structure Tidy (config : RegistryConfig) (name : String) (r k : ℕ) (sys : Deployment EtcdHub) :
    Prop where
  subscribed : (source config name r).Subscribed k sys
  pending : ∀ t ∈ sys.directory.tasks k, ∀ event ∈ t.pending, event.Distinct
  carries : sys.registry.Carries (fun _ => True) ServiceEvent.Distinct r

theorem forwards_distinct (config : RegistryConfig) :
    Forwards config (fun _ => True) ServiceEvent.Distinct := by
  intro service event sent _ hsent
  cases event with
  | put key value =>
    rw [RegistryConfig.watchEvent] at hsent
    split_ifs at hsent
    obtain ⟨inst, -, rfl⟩ := Option.map_eq_some_iff.mp hsent
    trivial
  | delete key =>
    rw [RegistryConfig.watchEvent] at hsent
    split_ifs at hsent
    obtain rfl := Option.some.inj hsent
    trivial

theorem carries_of_provider_step (h : sys.registry.Carries (fun _ => True) ServiceEvent.Distinct r)
    (hstep : provider.step sys l = some sys') :
    sys'.registry.Carries (fun _ => True) ServiceEvent.Distinct r := by
  cases l with
  | inl l =>
    rcases Provider.registry_of_step hstep with hsame | ⟨q, hanswer⟩
    · exact hsame ▸ h
    · exact h.answer hanswer
  | inr op =>
    obtain ⟨hact, -⟩ := Provider.step_inr_eq_some.mp hstep
    cases op with
    | store op => exact h.store (fun _ _ _ _ => trivial) (fun _ => trivial) hact
    | forwarder f owned l => exact h.forward (forwards_distinct _) hact

/-- The snapshot of a service is as distinct as the list its event makes. -/
theorem distinct_applyEvent {d : ServiceDirectory} {event : ServiceEvent}
    (h : Distinct (newList (d.getInstances name) event)) :
    Distinct ((d.applyEvent name event).getInstances name) := by
  rw [ServiceDirectory.getInstances_applyEvent, if_pos rfl]
  exact h

/-- **A step keeps ids distinct, and a reset makes them so.** -/
theorem Tidy.step (h : Tidy config name r k sys) (hl : Following k l)
    (hfair : (source config name r).Fairly sys l) (hstep : provider.step sys l = some sys') :
    Tidy config name r k sys'
      ∧ (Distinct (sys.directory.getInstances name) ∨ l = .inl (.task k .reset) →
        Distinct (sys'.directory.getInstances name)) := by
  have hsub' := (h.subscribed.step_fallible failsSilently hl hfair hstep).1
  have hcarries' := carries_of_provider_step h.carries hstep
  obtain ⟨d', reg'⟩ := sys'
  match l with
  | .inr op =>
    obtain ⟨-, hdir⟩ := Provider.step_inr_eq_some.mp hstep
    obtain rfl : d' = sys.directory := hdir
    exact ⟨⟨hsub', h.pending, hcarries'⟩, fun hdistinct => hdistinct.resolve_right (by simp)⟩
  | .inl (.persist n written) =>
    obtain ⟨-, hdir⟩ := Provider.step_inl_eq_some.mp hstep
    cases ServiceDirectory.move_of_step hdir with
    | persist written pending =>
      exact ⟨⟨hsub', h.pending, hcarries'⟩, fun hdistinct => hdistinct.resolve_right (by simp)⟩
  | .inl (.task k' l) =>
    obtain ⟨rfl, hnext⟩ := hl
    obtain ⟨t, ht, rfl, hstream⟩ := h.subscribed.task
    obtain ⟨hreply, hdir⟩ := Provider.step_inl_eq_some.mp hstep
    cases ServiceDirectory.move_of_step hdir with
    | @task _ t' _ _ ht' move =>
      obtain rfl := Option.some.inj (ht.symm.trans ht')
      rw [ServiceDirectory.query, ht, Option.bind_some] at hreply
      cases move with
      | @event stream event at_ =>
        obtain rfl : stream = r := by simpa [WatchTask.stream, at_] using hstream
        rw [WatchTask.query, at_] at hreply
        refine ⟨⟨hsub', fun t' ht' event' hevent => ?_, hcarries'⟩,
          fun hdistinct => hdistinct.resolve_right (by simp)⟩
        obtain rfl := Option.some.inj ((Function.update_self k' _ _).symm.trans ht')
        obtain rfl := Option.some.inj hevent
        exact h.carries.next hreply
      | listed latest at_ =>
        rw [WatchTask.query] at hreply
        obtain ⟨-, rfl⟩ := listed_spec hreply
        refine ⟨⟨hsub', fun t' ht' event hevent => ?_, hcarries'⟩,
          fun hdistinct => hdistinct.resolve_right (by simp)⟩
        have hopen : Open config t.name r sys.registry := h.subscribed.isOpen
        obtain rfl := Option.some.inj ((Function.update_self k' _ _).symm.trans ht')
        obtain rfl := Option.some.inj hevent
        rw [ServiceEvent.Distinct, hopen.config_eq]
        exact distinct_listInstances hopen.plain
      | @apply stream event at_ =>
        refine ⟨⟨hsub', fun t' ht' event' hevent => ?_, hcarries'⟩, fun hdistinct => ?_⟩
        · obtain rfl := Option.some.inj ((Function.update_self k' _ _).symm.trans ht')
          cases hevent
        · have hevent : event.Distinct := h.pending t ht event (by simp [WatchTask.pending, at_])
          exact distinct_applyEvent ((hdistinct.resolve_right (by simp)).newList hevent)
      | @reset stream latest at_ =>
        refine ⟨⟨hsub', fun t' ht' event hevent => ?_, hcarries'⟩, fun _ => ?_⟩
        · obtain rfl := Option.some.inj ((Function.update_self k' _ _).symm.trans ht')
          cases hevent
        · have hlatest : ServiceEvent.Distinct (.reset latest) :=
            h.pending t ht _ (by simp [WatchTask.pending, at_])
          exact distinct_applyEvent hlatest
      | ended at_ => exact absurd rfl hnext
      | _ =>
        refine ⟨⟨hsub', fun t' ht' event hevent => ?_, hcarries'⟩,
          fun hdistinct => hdistinct.resolve_right (by simp)⟩
        obtain rfl := Option.some.inj ((Function.update_self k' _ _).symm.trans ht')
        cases hevent

/-- At the end of such a run, the snapshot has distinct ids. -/
theorem distinct_of_run (h : (source config name r).Established k sys)
    (hguarded : sys.directory.Guarded)
    (hcarries : sys.registry.Carries (fun _ => True) ServiceEvent.Distinct r)
    (hw : ∀ l ∈ w, Streaming config name r k l) (hrun : run step sys w = some sys')
    (hreset : .inl (.task k .reset) ∈ w) (hattached : Attached r k sys') :
    Distinct (sys'.directory.getInstances name) := by
  obtain ⟨hprovider, hfair⟩ := fairly_run h.subscribed hguarded hw hrun hattached
  have hstreaming : EachStep provider.step (fun _ l => Following k l) sys w :=
    eachStep_of_forall_mem fun l hl => (hw l hl).following
  have hfollowing := hstreaming.and hfair
  have htidy : Tidy config name r k sys := by
    refine ⟨h.subscribed, fun t ht event hevent => ?_, hcarries⟩
    obtain ⟨t', ht', -, -, hnone⟩ := h.task
    obtain rfl := Option.some.inj (ht'.symm.trans ht)
    cases hnone.symm.trans hevent
  -- up to the reset the task is tidy, from then on the snapshot too
  obtain ⟨u, v, rfl⟩ := List.append_of_mem hreset
  obtain ⟨s₁, hu, hrest⟩ := run_append_eq_some.mp hprovider
  obtain ⟨s₂, hs₂, hv⟩ := run_cons_eq_some.mp hrest
  obtain ⟨hfu, hfrest⟩ := eachStep_append.mp hfollowing
  replace hfrest := hfrest s₁ hu
  have h₁ : Tidy config name r k s₁ :=
    invariant_run (fun _ _ _ h hl hstep => (h.step hl.1 hl.2 hstep).1) htidy hfu hu
  have h₂ := h₁.step hfrest.1.1 hfrest.1.2 hs₂
  exact (invariant_run (I := fun s => Tidy config name r k s
      ∧ Distinct (s.directory.getInstances name))
    (fun _ _ _ h hl hstep => ⟨(h.1.step hl.1 hl.2 hstep).1,
      (h.1.step hl.1 hl.2 hstep).2 (.inl h.2)⟩) ⟨h₂.1, h₂.2 (.inr rfl)⟩ (hfrest.2 s₂ hs₂) hv).2

end Client

end EtcdHub

/-! ## Clients -/

/-- An etcd, and clients that watch it; what a client has of etcd is what etcd holds. -/
structure Clients where
  etcd : Etcd
  client : ℕ → Deployment EtcdHub

/-- Somebody operates on etcd, or client `i` moves. -/
inductive ClientsLabel
  | store (op : Op String ServiceInstance)
  | directory (i : ℕ) (l : DirectoryLabel)
  | forwarder (i f : ℕ) (owned : Bool) (l : ForwarderLabel)

/-- What a step is to client `i`. -/
def ClientsLabel.seen (i : ℕ) : ClientsLabel → List (DirectoryLabel ⊕ EtcdHubOp)
  | store op => [.inr (.store op)]
  | directory j l => if j = i then [.inl l] else []
  | forwarder j f owned l => if j = i then [.inr (.forwarder f owned l)] else []

namespace Clients

variable {C C' : Clients} {l : ClientsLabel} {w : List ClientsLabel} {i j : ℕ}
  {config : RegistryConfig} {name : String}

/-- Client `i` has become `s`. -/
@[simps]
def setClient (C : Clients) (i : ℕ) (s : Deployment EtcdHub) : Clients where
  etcd := C.etcd
  client := Function.update C.client i s

/-- One step: etcd reports an operation to all clients, or one client moves. -/
def step (C : Clients) : ClientsLabel → Option Clients
  | .store op => (C.etcd.apply op).map fun etcd =>
      { etcd
        client := fun i =>
          { directory := (C.client i).directory
            registry :=
              { watches := (C.client i).registry.watches
                etcd
                unread := fun f => (C.client i).registry.unread f ++ etcdEvents op } } }
  | .directory i l => (EtcdHub.step (C.client i) (.inl l)).map (C.setClient i)
  | .forwarder i f owned l =>
      (EtcdHub.step (C.client i) (.inr (.forwarder f owned l))).map (C.setClient i)

/-- The clients see what etcd holds. -/
def Synced (C : Clients) : Prop := ∀ i, (C.client i).registry.etcd = C.etcd

theorem Synced.setClient (h : C.Synced) {l : DirectoryLabel ⊕ EtcdHubOp} {s : Deployment EtcdHub}
    (hl : ∀ op, l ≠ .inr (.store op)) (hs : EtcdHub.step (C.client j) l = some s) :
    (C.setClient j s).Synced := by
  intro i
  rw [setClient_client, setClient_etcd, Function.update_apply]
  split_ifs with hij
  · rw [EtcdHub.etcd_of_step hs hl]
    exact h j
  · exact h i

/-- **A step is a step of every client that sees it.** -/
theorem Synced.step (h : C.Synced) (hstep : C.step l = some C') (i : ℕ) :
    C'.Synced ∧ run EtcdHub.step (C.client i) (l.seen i) = some (C'.client i) := by
  have hmoved : ∀ {l : DirectoryLabel ⊕ EtcdHubOp} {s : Deployment EtcdHub} {j : ℕ},
      EtcdHub.step (C.client j) l = some s →
      run EtcdHub.step (C.client i) (if j = i then [l] else [])
        = some ((C.setClient j s).client i) := by
    intro l s j hs
    rw [setClient_client, Function.update_apply]
    by_cases hij : j = i
    · subst hij
      rw [if_pos rfl, if_pos rfl, run_singleton, hs]
    · rw [if_neg hij, if_neg (Ne.symm hij), run_nil]
  cases l with
  | store op =>
    obtain ⟨etcd, happly, rfl⟩ := Option.map_eq_some_iff.mp hstep
    refine ⟨fun _ => rfl, ?_⟩
    rw [ClientsLabel.seen, run_singleton, EtcdHub.step,
      if_pos (show EtcdHub.Truthful (C.client i) (.inr (.store op)) from trivial)]
    refine Provider.step_inr_eq_some.mpr ⟨?_, rfl⟩
    exact Option.map_eq_some_iff.mpr ⟨etcd, by rw [h i, happly], rfl⟩
  | directory j l =>
    obtain ⟨s, hs, rfl⟩ := Option.map_eq_some_iff.mp hstep
    exact ⟨h.setClient (fun _ heq => by cases heq) hs, hmoved hs⟩
  | forwarder j f owned l =>
    obtain ⟨s, hs, rfl⟩ := Option.map_eq_some_iff.mp hstep
    exact ⟨h.setClient (fun _ heq => by cases heq) hs, hmoved hs⟩

theorem synced_run (h : C.Synced) (hrun : run step C w = some C') (i : ℕ) :
    C'.Synced ∧ run EtcdHub.step (C.client i) (w.flatMap (ClientsLabel.seen i))
      = some (C'.client i) :=
  run_shadow (I := Synced) (C := fun _ _ => True) (fun C : Clients => C.client i)
    (ClientsLabel.seen i) (fun _ _ _ h _ hstep => h.step hstep i) h
    (eachStep_of_forall_mem fun _ _ => trivial) hrun

/-- Client `i` has just subscribed task `k` to the service, by stream `r`. -/
structure Subscribes (config : RegistryConfig) (name : String) (i r k : ℕ) (C : Clients) :
    Prop where
  established : (EtcdHub.source config name r).Established k (C.client i)
  guarded : (C.client i).directory.Guarded
  carries : (C.client i).registry.Carries (fun _ => True) ServiceEvent.Distinct r

/-- Client `i` has reconciled in the run, task `k` has its stream, and nothing is on its way to
it. -/
structure Settled (i r k : ℕ) (w : List ClientsLabel) (C : Clients) : Prop where
  reset : .directory i (.task k .reset) ∈ w
  attached : EtcdHub.Attached r k (C.client i)
  drained : EtcdHub.Drained r k (C.client i)

/-- What client `i` sees of a step leaves its snapshot to task `k`, stream `r` open and the keys
plain. -/
def Streams (config : RegistryConfig) (name : String) (i r k : ℕ) (l : ClientsLabel) : Prop :=
  ∀ a ∈ l.seen i, EtcdHub.Streaming config name r k a

/-- The snapshot of a settled client is what etcd holds, with distinct ids. -/
theorem snapshot_of_run {r k : ℕ} (hsynced : C.Synced) (h : Subscribes config name i r k C)
    (hw : ∀ l ∈ w, Streams config name i r k l) (hrun : run step C w = some C')
    (hsettled : Settled i r k w C') :
    Distinct ((C'.client i).directory.getInstances name)
      ∧ byId ((C'.client i).directory.getInstances name)
        = reading (EtcdHub.keyOfId config name) C'.etcd.values := by
  obtain ⟨hsynced', hclient⟩ := synced_run hsynced hrun i
  have hstreaming : ∀ a ∈ w.flatMap (ClientsLabel.seen i),
      EtcdHub.Streaming config name r k a := fun a ha => by
    obtain ⟨l, hl, ha⟩ := List.mem_flatMap.mp ha
    exact hw l hl a ha
  have hreset : .inl (.task k .reset) ∈ w.flatMap (ClientsLabel.seen i) :=
    List.mem_flatMap.mpr ⟨_, hsettled.reset, by simp [ClientsLabel.seen]⟩
  refine ⟨EtcdHub.distinct_of_run h.established h.guarded h.carries hstreaming hclient hreset
    hsettled.attached, ?_⟩
  rw [(EtcdHub.agree_of_run h.established h.guarded hstreaming hclient hreset hsettled.attached
    hsettled.drained).2, hsynced' i]

/-- Two clients, or any number, that have just subscribed to a service without instances. -/
def subscribed : Clients := ⟨.empty, fun _ => EtcdHub.subscribedHub⟩

/-- A second instance of the service. -/
def other : ServiceInstance := .simple "order-svc" "10.0.0.2" 8080

def otherKey : String := RegistryConfig.default.keyOf other

/-- The report of both instances makes its way to the snapshot of client `i`. -/
def following (i : ℕ) : List ClientsLabel :=
  [.forwarder i 0 true (.message [.put EtcdHub.orderKey (some EtcdHub.orderInstance),
      .put otherKey (some other)]),
    .forwarder i 0 true .forward, .forwarder i 0 true .forward,
    .directory i (.task 0 (.next (some (.upsert EtcdHub.orderInstance)))),
    .directory i (.task 0 .apply), .directory i (.task 0 (.next (some (.upsert other)))),
    .directory i (.task 0 .apply)]

/-- Client 0 lists before, client 1 between the registrations of two instances; client 1 applies its
listing at once, client 0 only after the second registration. -/
def meanwhile : List ClientsLabel :=
  [.directory 0 (.task 0 .enter), .directory 0 (.task 0 .primed), .directory 0 (.task 0 .tick),
    .directory 0 (.task 0 (.listed (.ok []))), .store (.grant 7 RegistryConfig.default.leaseTtl),
    .store (.put EtcdHub.orderKey EtcdHub.orderInstance 7), .directory 1 (.task 0 .enter),
    .directory 1 (.task 0 .primed), .directory 1 (.task 0 .tick),
    .directory 1 (.task 0 (.listed (.ok [EtcdHub.orderInstance]))), .directory 1 (.task 0 .reset),
    .store (.put otherKey other 7), .directory 0 (.task 0 .reset)] ++ following 0 ++ following 1

def met : Clients := (run step subscribed meanwhile).get (by decide +kernel)

end Clients

end PecsRegistry
