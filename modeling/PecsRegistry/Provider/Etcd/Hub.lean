import PecsRegistry.Directory.Fallible
import PecsRegistry.Machinery.LeaseOps
import PecsRegistry.Provider.Etcd.Forwarding

/-!
# Provider/Etcd/Hub — from etcd to the snapshot

The whole way of an instance to a service directory: somebody writes to etcd, etcd reports the
write to every watch, a forwarding task reads the report, decodes it and sends it into the channel
of its stream, and the watch task of the directory applies what it receives; meanwhile it reconciles
with `list_instances`, which may fail.  `EtcdHub` is the registry of this deployment.

Where the keys under the prefix of a service are plain, a stream is a `Source` of the map of the
service (`EtcdHub.source`), so **a completed reconcile and a drained stream make the snapshot equal
to what etcd holds** (`healed_from_etcd`), whatever was on its way meanwhile.
-/

namespace PecsRegistry

open Transition Writes Registrations LeaseStore

/-! ## What etcd reports -/

/-- The event of a write. -/
def EtcdEvent.ofWrite : Write String ServiceInstance → Option EtcdEvent
  | .put key value => some (.put key (some value))
  | .drop key => some (.delete key)
  | .reset _ => none

/-- The events of an operation, in the order of its writes. -/
def etcdEvents (op : Op String ServiceInstance) : List EtcdEvent :=
  op.writes.filterMap EtcdEvent.ofWrite

/-- The events a task has read and not yet forwarded. -/
def ForwarderState.events : ForwarderState → List EtcdEvent
  | .forwarding event rest => event :: rest
  | _ => []

@[simp] theorem ForwarderState.events_reading : reading.events = [] := rfl

@[simp] theorem ForwarderState.events_forwarding (event : EtcdEvent) (rest : List EtcdEvent) :
    (forwarding event rest).events = event :: rest := rfl

@[simp] theorem ForwarderState.events_handling (events : List EtcdEvent) :
    (handling events).events = events := by
  cases events <;> rfl

/-! ## State and steps -/

/-- Etcd, the watches of a registry, and what etcd has reported to each of them and its task has not
read yet. -/
structure EtcdHub where
  watches : EtcdWatches
  etcd : Etcd
  unread : ℕ → List EtcdEvent

/-- Somebody operates on etcd, or forwarding task `f` takes a step; `owned` says whether the
receiver of its stream is still there. -/
inductive EtcdHubOp
  | store (op : Op String ServiceInstance)
  | forwarder (f : ℕ) (owned : Bool) (l : ForwarderLabel)

/-- Forwarding task `f` has become `fw`. -/
@[simps]
def EtcdWatches.setForwarder (reg : EtcdWatches) (f : ℕ) (fw : Forwarder) : EtcdWatches where
  config := reg.config
  forwarders := reg.forwarders.set f fw

namespace EtcdHub

/-- Task `f` reads the next response, which holds the oldest events, in order. -/
def read (reg : EtcdHub) (f : ℕ) : ForwarderLabel → Option (ℕ → List EtcdEvent)
  | .message events =>
      if events <+: reg.unread f then
        some (Function.update reg.unread f ((reg.unread f).drop events.length))
      else none
  | _ => some reg.unread

def act (reg : EtcdHub) : EtcdHubOp → Option EtcdHub
  | .store op => (reg.etcd.apply op).map fun etcd =>
      { reg with etcd, unread := fun f => reg.unread f ++ etcdEvents op }
  | .forwarder f owned l =>
      (reg.watches.forwarders[f]?).bind fun fw =>
        (fw.step reg.watches.config owned fw.state l).bind fun fw' =>
          (reg.read f l).map fun unread =>
            { reg with watches := reg.watches.setForwarder f fw', unread }

/-- The answers of `list_instances`, which reads what etcd holds, of `watch`, whose events begin
now, and of an event stream. -/
def answer (reg : EtcdHub) (q : Query) : Option EtcdHub :=
  (reg.watches.answer q).bind fun watches =>
    match q with
    | .list name (.ok list) =>
        if list = listInstances watches.config reg.etcd name then some reg else none
    | .watch _ (.ok stream) =>
        some { reg with watches, unread := Function.update reg.unread stream [] }
    | _ => some { reg with watches }

def provider : Provider EtcdHub EtcdHubOp := ⟨act, answer⟩

/-- A label says right whether the receiver of a forwarding task is still there. -/
def Truthful (s : Deployment EtcdHub) : DirectoryLabel ⊕ EtcdHubOp → Prop
  | .inr (.forwarder f owned _) => owned = decide (s.directory.Owns f)
  | _ => True

instance (s : Deployment EtcdHub) (l : DirectoryLabel ⊕ EtcdHubOp) : Decidable (Truthful s l) := by
  unfold Truthful
  split <;> infer_instance

/-- One step: of the directory, with the registry's answer, of a forwarding task, or of etcd. -/
def step (s : Deployment EtcdHub) (l : DirectoryLabel ⊕ EtcdHubOp) : Option (Deployment EtcdHub) :=
  if Truthful s l then provider.step s l else none

theorem provider_of_step {s s' : Deployment EtcdHub} {l : DirectoryLabel ⊕ EtcdHubOp}
    (h : step s l = some s') : provider.step s l = some s' := by
  rw [EtcdHub.step] at h
  split_ifs at h
  exact h

/-- The steps of a client leave etcd alone. -/
theorem etcd_of_step {s s' : Deployment EtcdHub} {l : DirectoryLabel ⊕ EtcdHubOp}
    (h : step s l = some s') (hl : ∀ op, l ≠ .inr (.store op)) :
    s'.registry.etcd = s.registry.etcd := by
  match l with
  | .inl l =>
    rcases Provider.registry_of_step (provider_of_step h) with hsame | ⟨q, hanswer⟩
    · rw [hsame]
    · obtain ⟨watches, -, hreg⟩ := Option.bind_eq_some_iff.mp hanswer
      split at hreg
      · split_ifs at hreg
        rw [← Option.some.inj hreg]
      · rw [← Option.some.inj hreg]
      · rw [← Option.some.inj hreg]
  | .inr (.store op) => exact absurd rfl (hl op)
  | .inr (.forwarder f owned l) =>
    obtain ⟨hact, -⟩ := Provider.step_inr_eq_some.mp (provider_of_step h)
    obtain ⟨fw, -, hact⟩ := Option.bind_eq_some_iff.mp hact
    obtain ⟨fw', -, hact⟩ := Option.bind_eq_some_iff.mp hact
    obtain ⟨unread, -, hreg⟩ := Option.map_eq_some_iff.mp hact
    rw [← hreg]

/-! ## The map of a service -/

section Map

variable {config : RegistryConfig} {name key id : String} {value : ServiceInstance} {etcd : Etcd}

/-- A key under the prefix of the service is the key of the id of its value, without a slash. -/
def Plain (config : RegistryConfig) (name key : String) (value : ServiceInstance) : Prop :=
  (config.makeServicePrefix name).toList <+: key.toList →
    SlashFree value.serviceId ∧ key = config.makeInstanceKey name value.serviceId

/-- The key an id is found under. -/
def keyOfId (config : RegistryConfig) (name id : String) : Option String :=
  if '/' ∈ id.toList then none else some (config.makeInstanceKey name id)

/-- What a write to etcd is to the service: the events its watch makes of it. -/
def serviceWrites (config : RegistryConfig) (name : String) (w : Write String ServiceInstance) :
    List (Write String ServiceInstance) :=
  (((EtcdEvent.ofWrite w).bind (config.watchEvent name)).map ServiceEvent.write).toList

theorem toList_makeInstanceKey (config : RegistryConfig) (name id : String) :
    (config.makeInstanceKey name id).toList
      = (config.makeServicePrefix name).toList ++ (trimSlashes id).toList := by
  simp [RegistryConfig.makeInstanceKey, RegistryConfig.makeServicePrefix]

theorem prefix_makeInstanceKey (config : RegistryConfig) (name id : String) :
    (config.makeServicePrefix name).toList <+: (config.makeInstanceKey name id).toList :=
  ⟨_, (toList_makeInstanceKey config name id).symm⟩

theorem keyOfId_eq_some :
    keyOfId config name id = some key ↔ SlashFree id ∧ key = config.makeInstanceKey name id := by
  rw [keyOfId, SlashFree]
  split_ifs with hslash <;> simp [hslash, eq_comm]

/-- Ids without a slash have different keys. -/
theorem id_of_key {id' : String} (hid : SlashFree id) (hid' : SlashFree id')
    (h : config.makeInstanceKey name id = config.makeInstanceKey name id') : id = id' := by
  rw [← String.toList_inj, toList_makeInstanceKey, toList_makeInstanceKey,
    List.append_cancel_left_eq, hid.trimSlashes_eq, hid'.trimSlashes_eq] at h
  exact String.toList_inj.mp h

/-- The key of an id is the key of no other. -/
theorem unique_of_keyOfId (hid : SlashFree id) :
    ∀ id', keyOfId config name id' = some (config.makeInstanceKey name id) → id' = id := by
  intro id' h
  obtain ⟨hid', hkey⟩ := keyOfId_eq_some.mp h
  exact id_of_key hid' hid hkey.symm

/-- **The map of a service is what etcd holds, read by ids.** -/
theorem byId_listInstances (hactive : config.active = true)
    (hplain : ∀ key value, etcd.values key = some value → Plain config name key value) :
    byId (listInstances config etcd name) = reading (keyOfId config name) etcd.values := by
  have hreading : ∀ id inst, reading (keyOfId config name) etcd.values id = some inst
      ↔ SlashFree id ∧ etcd.values (config.makeInstanceKey name id) = some inst := by
    intro id inst
    rw [reading, Option.bind_eq_some_iff]
    constructor
    · rintro ⟨key, hkey, hinst⟩
      obtain ⟨hfree, rfl⟩ := keyOfId_eq_some.mp hkey
      exact ⟨hfree, hinst⟩
    · rintro ⟨hfree, hinst⟩
      exact ⟨_, keyOfId_eq_some.mpr ⟨hfree, rfl⟩, hinst⟩
  refine byId_eq_of_mem_iff (fun inst => ?_) fun id inst hinst => ?_
  · rw [listInstances, if_pos hactive, LeaseStore.mem_range, hreading]
    constructor
    · rintro ⟨key, hprefix, hinst⟩
      obtain ⟨hfree, rfl⟩ := hplain key inst hinst (of_decide_eq_true hprefix)
      exact ⟨hfree, hinst⟩
    · rintro ⟨-, hinst⟩
      exact ⟨_, decide_eq_true (prefix_makeInstanceKey config name _), hinst⟩
  · obtain ⟨hfree, hvalue⟩ := (hreading id inst).mp hinst
    obtain ⟨hfree', hkey⟩ := hplain _ inst hvalue (prefix_makeInstanceKey config name id)
    exact id_of_key hfree' hfree hkey.symm

/-- A write outside the prefix is nothing to the service. -/
theorem reading_apply_of_foreign {w : Write String ServiceInstance}
    (m : String → Option ServiceInstance)
    (h : ∀ key, w.Touches key → ¬ (config.makeServicePrefix name).toList <+: key.toList) :
    reading (keyOfId config name) (w.apply m) = reading (keyOfId config name) m := by
  refine reading_of_unnamed fun id key hkey htouches => h key htouches ?_
  obtain ⟨-, rfl⟩ := keyOfId_eq_some.mp hkey
  exact prefix_makeInstanceKey config name id

theorem reading_put_plain (h : Plain config name key value) (m : String → Option ServiceInstance) :
    reading (keyOfId config name) ((Write.put key value).apply m)
      = replay (serviceWrites config name (.put key value)) (reading (keyOfId config name) m) := by
  by_cases hprefix : (config.makeServicePrefix name).toList <+: key.toList
  · obtain ⟨hfree, rfl⟩ := h hprefix
    have hwrites : serviceWrites config name
        (.put (config.makeInstanceKey name value.serviceId) value)
          = [.put value.serviceId value] := by
      simp [serviceWrites, EtcdEvent.ofWrite, RegistryConfig.watchEvent, EtcdEvent.key, hprefix,
        ServiceEvent.write]
    rw [hwrites, replay_cons, replay_nil, Write.apply_put, Write.apply_put]
    exact reading_update (keyOfId_eq_some.mpr ⟨hfree, rfl⟩) (unique_of_keyOfId hfree) _
  · have hwrites : serviceWrites config name (.put key value) = [] := by
      simp [serviceWrites, EtcdEvent.ofWrite, RegistryConfig.watchEvent, EtcdEvent.key, hprefix]
    rw [hwrites, replay_nil]
    refine reading_apply_of_foreign m fun key' htouches => ?_
    obtain rfl : key' = key := by
      by_contra hne
      simp [Write.Touches, Write.effect, hne] at htouches
    exact hprefix

theorem reading_drop_plain (h : Plain config name key value) (m : String → Option ServiceInstance) :
    reading (keyOfId config name) ((Write.drop key).apply m)
      = replay (serviceWrites config name (.drop key)) (reading (keyOfId config name) m) := by
  by_cases hprefix : (config.makeServicePrefix name).toList <+: key.toList
  · obtain ⟨hfree, rfl⟩ := h hprefix
    have hwrites : serviceWrites config name
        (.drop (config.makeInstanceKey name value.serviceId)) = [.drop value.serviceId] := by
      rw [serviceWrites, EtcdEvent.ofWrite, Option.bind_some, RegistryConfig.watchEvent_delete,
        RegistryConfig.lastSegment_trimSlashes_eq_iff.mpr hfree]
      rfl
    rw [hwrites, replay_cons, replay_nil, Write.apply_drop, Write.apply_drop]
    exact reading_update (keyOfId_eq_some.mpr ⟨hfree, rfl⟩) (unique_of_keyOfId hfree) _
  · have hwrites : serviceWrites config name (.drop key) = [] := by
      simp [serviceWrites, EtcdEvent.ofWrite, RegistryConfig.watchEvent, EtcdEvent.key, hprefix]
    rw [hwrites, replay_nil]
    refine reading_apply_of_foreign m fun key' htouches => ?_
    obtain rfl : key' = key := by
      by_contra hne
      simp [Write.Touches, Write.effect, hne] at htouches
    exact hprefix

/-- **The reports of an operation make of the old map of a service the new one.** -/
theorem reading_apply {op : Op String ServiceInstance} {etcd' : Etcd}
    (h : etcd.apply op = some etcd')
    (hplain : ∀ key value, etcd.values key = some value → Plain config name key value)
    (hop : ∀ key value id, op = .put key value id → Plain config name key value) :
    reading (keyOfId config name) etcd'.values
      = replay (op.writes.flatMap (serviceWrites config name))
          (reading (keyOfId config name) etcd.values) := by
  rw [values_apply h]
  refine reading_replay fun w hw m => ?_
  rcases Op.mem_writes h hw with ⟨key, value, id, rfl, rfl⟩ | ⟨key, value, hvalue, rfl⟩
  · exact reading_put_plain (hop key value id rfl) m
  · exact reading_drop_plain (hplain key value hvalue) m

theorem plain_apply {op : Op String ServiceInstance} {etcd' : Etcd} (h : etcd.apply op = some etcd')
    (hplain : ∀ key value, etcd.values key = some value → Plain config name key value)
    (hop : ∀ key value id, op = .put key value id → Plain config name key value) :
    ∀ key value, etcd'.values key = some value → Plain config name key value := by
  intro key value hvalue
  obtain ⟨⟨value', id⟩, hentry, rfl⟩ := Option.map_eq_some_iff.mp hvalue
  rcases lookup_of_apply h hentry with hold | ⟨rfl, -⟩
  · exact hplain key _ (by rw [values, hold, Option.map_some])
  · exact hop key _ id rfl

end Map

/-! ## A stream as a source -/

section Stream

variable {config : RegistryConfig} {name : String} {r : ℕ} {reg reg' : EtcdHub} {op : EtcdHubOp}

/-- Stream `r` belongs to the service, its task reads on, and the keys of the service are plain. -/
structure Open (config : RegistryConfig) (name : String) (r : ℕ) (reg : EtcdHub) : Prop where
  config_eq : reg.watches.config = config
  active : config.active = true
  forwarder : ∃ fw, reg.watches.forwarders[r]? = some fw ∧ fw.service = name ∧ fw.state ≠ .stopped
  plain : ∀ key value, reg.etcd.values key = some value → Plain config name key value

/-- What is on its way through a forwarding task, as writes to the map of the service. -/
def inTransit (config : RegistryConfig) (fw : Forwarder) (unread : List EtcdEvent) :
    List (Write String ServiceInstance) :=
  (fw.channel.queue ++ (fw.state.events ++ unread).filterMap (config.watchEvent fw.service)).map
    ServiceEvent.write

/-- What the stream has yet to deliver. -/
def backlog (r : ℕ) (reg : EtcdHub) : List (Write String ServiceInstance) :=
  ((reg.watches.forwarders[r]?).map fun fw =>
    inTransit reg.watches.config fw (reg.unread r)).getD []

/-- The writes an operation makes to the map of the service. -/
def writes (config : RegistryConfig) (name : String) :
    EtcdHubOp → List (Write String ServiceInstance)
  | .store op => op.writes.flatMap (serviceWrites config name)
  | .forwarder _ _ _ => []

/-- The operation puts plain keys only, and leaves the task of the stream running and heard. -/
def Fair (config : RegistryConfig) (name : String) (r : ℕ) : EtcdHubOp → Prop
  | .store op => ∀ key value id, op = .put key value id → Plain config name key value
  | .forwarder f owned l => f = r → owned = true ∧ l ≠ .closed ∧ l ≠ .failed

theorem backlog_eq {fw : Forwarder} (h : reg.watches.forwarders[r]? = some fw) :
    reg.backlog r = inTransit reg.watches.config fw (reg.unread r) := by
  rw [backlog, h]
  rfl

theorem inTransit_append (config : RegistryConfig) (fw : Forwarder) (unread : List EtcdEvent)
    (op : Op String ServiceInstance) :
    inTransit config fw (unread ++ etcdEvents op)
      = inTransit config fw unread ++ op.writes.flatMap (serviceWrites config fw.service) := by
  have hwrites : op.writes.flatMap (serviceWrites config fw.service)
      = ((etcdEvents op).filterMap (config.watchEvent fw.service)).map ServiceEvent.write := by
    rw [etcdEvents, List.filterMap_filterMap, List.map_filterMap]
    exact (List.filterMap_eq_flatMap_toList _ _).symm
  rw [hwrites, inTransit, inTransit, ← List.append_assoc, List.filterMap_append,
    ← List.append_assoc, List.map_append]

/-- A task reads its own events only. -/
theorem read_of_ne {f : ℕ} {l : ForwarderLabel} {unread : ℕ → List EtcdEvent}
    (h : reg.read f l = some unread) (hne : r ≠ f) : unread r = reg.unread r := by
  cases l with
  | message events =>
    rw [read] at h
    split_ifs at h
    obtain rfl := Option.some.inj h
    exact Function.update_of_ne hne _ _
  | _ =>
    obtain rfl := Option.some.inj h
    rfl

/-- **A step of a forwarding task that is heard loses nothing.** -/
theorem inTransit_step {fw fw' : Forwarder} {l : ForwarderLabel}
    (h : fw.step reg.watches.config true fw.state l = some fw') {unread : ℕ → List EtcdEvent}
    (hread : reg.read r l = some unread) (hclosed : l ≠ .closed) (hfailed : l ≠ .failed) :
    fw'.service = fw.service ∧ fw'.state ≠ .stopped
      ∧ inTransit reg.watches.config fw' (unread r)
        = inTransit reg.watches.config fw (reg.unread r) := by
  cases l with
  | closed => exact absurd rfl hclosed
  | failed => exact absurd rfl hfailed
  | message events =>
    rw [read] at hread
    split_ifs at hread with hprefix
    obtain rfl := Option.some.inj hread
    obtain ⟨rest, hrest⟩ := hprefix
    cases hstate : fw.state with
    | reading =>
      rw [hstate] at h
      obtain rfl := Option.some.inj h
      refine ⟨rfl, by cases events <;> exact ForwarderState.noConfusion, ?_⟩
      simp [inTransit, hstate, ← hrest]
    | _ => simp [Forwarder.step, hstate] at h
  | forward =>
    obtain rfl := Option.some.inj hread
    cases hstate : fw.state with
    | forwarding event rest =>
      have hlive : ForwarderState.handling rest ≠ .stopped := by
        cases rest <;> exact ForwarderState.noConfusion
      rw [hstate, Forwarder.step] at h
      cases hoffer : fw.offer reg.watches.config with
      | none =>
        -- the event does not concern the service, or does not decode
        rw [hoffer] at h
        obtain rfl := Option.some.inj h
        replace hoffer : reg.watches.config.watchEvent fw.service event = none := by
          simpa [Forwarder.offer, hstate] using hoffer
        refine ⟨rfl, hlive, ?_⟩
        simp [inTransit, hstate, hoffer]
      | some sent =>
        rw [hoffer] at h
        have hsent : fw.channel.HasRoom watchCapacity
            ∧ { fw with state := .handling rest, channel := fw.channel.push sent } = fw' := by
          simpa using h
        obtain ⟨-, rfl⟩ := hsent
        replace hoffer : reg.watches.config.watchEvent fw.service event = some sent := by
          simpa [Forwarder.offer, hstate] using hoffer
        refine ⟨rfl, hlive, ?_⟩
        simp [inTransit, hstate, hoffer, Channel.push]
    | _ => simp [Forwarder.step, hstate] at h

theorem act_store {op : Op String ServiceInstance} (h : Open config name r reg)
    (hact : reg.act (.store op) = some reg') (hfair : Fair config name r (.store op)) :
    Open config name r reg'
      ∧ byId (listInstances reg'.watches.config reg'.etcd name)
        = replay (writes config name (.store op))
            (byId (listInstances reg.watches.config reg.etcd name))
      ∧ reg'.backlog r = reg.backlog r ++ writes config name (.store op) := by
  obtain ⟨etcd, happly, rfl⟩ := Option.map_eq_some_iff.mp hact
  obtain ⟨fw, hfw, hservice, hlive⟩ := h.forwarder
  have hplain := plain_apply happly h.plain hfair
  have hconfig := h.config_eq
  refine ⟨⟨hconfig, h.active, ⟨fw, hfw, hservice, hlive⟩, hplain⟩, ?_, ?_⟩
  · rw [hconfig, byId_listInstances h.active hplain, byId_listInstances h.active h.plain]
    exact reading_apply happly h.plain hfair
  · have hlater := @backlog_eq r ⟨reg.watches, etcd, fun f => reg.unread f ++ etcdEvents op⟩ fw hfw
    rw [backlog_eq hfw, hlater, inTransit_append, hservice, hconfig]
    rfl

theorem act_forwarder {f : ℕ} {owned : Bool} {l : ForwarderLabel} (h : Open config name r reg)
    (hact : reg.act (.forwarder f owned l) = some reg')
    (hfair : Fair config name r (.forwarder f owned l)) :
    Open config name r reg' ∧ reg'.etcd = reg.etcd ∧ reg'.backlog r = reg.backlog r := by
  obtain ⟨fw, hfw, hact⟩ := Option.bind_eq_some_iff.mp hact
  obtain ⟨fw', hstep, hact⟩ := Option.bind_eq_some_iff.mp hact
  obtain ⟨unread, hread, rfl⟩ := Option.map_eq_some_iff.mp hact
  obtain ⟨fw₀, hfw₀, hservice, hlive⟩ := h.forwarder
  rcases eq_or_ne f r with rfl | hne
  · obtain rfl := Option.some.inj (hfw₀.symm.trans hfw)
    obtain ⟨rfl, hclosed, hfailed⟩ := hfair rfl
    obtain ⟨hservice', hlive', htransit⟩ := inTransit_step hstep hread hclosed hfailed
    have hself := List.getElem?_set_self (a := fw') (List.getElem?_eq_some_iff.mp hfw).1
    refine ⟨⟨h.config_eq, h.active, ⟨fw', hself, hservice'.trans hservice, hlive'⟩, h.plain⟩,
      rfl, ?_⟩
    rw [backlog_eq hfw, backlog_eq hself]
    exact htransit
  · have hother := (List.getElem?_set_ne (a := fw') hne).trans hfw₀
    refine ⟨⟨h.config_eq, h.active, ⟨fw₀, hother, hservice, hlive⟩, h.plain⟩, rfl, ?_⟩
    rw [backlog_eq hfw₀, backlog_eq hother]
    exact congrArg (inTransit reg.watches.config fw₀) (read_of_ne hread hne.symm)

theorem act_spec (h : Open config name r reg) (hact : reg.act op = some reg')
    (hfair : Fair config name r op) : Open config name r reg'
      ∧ byId (listInstances reg'.watches.config reg'.etcd name)
        = replay (writes config name op) (byId (listInstances reg.watches.config reg.etcd name))
      ∧ reg'.backlog r = reg.backlog r ++ writes config name op := by
  cases op with
  | store op => exact act_store h hact hfair
  | forwarder f owned l =>
    obtain ⟨hopen, hetcd, hbacklog⟩ := act_forwarder h hact hfair
    refine ⟨hopen, ?_, hbacklog.trans (List.append_nil _).symm⟩
    rw [hetcd, hopen.config_eq, h.config_eq]
    rfl

theorem deliver_spec {event : ServiceEvent} (h : Open config name r reg)
    (hnext : reg.answer (.next r (some event)) = some reg') :
    Open config name r reg'
      ∧ byId (listInstances reg'.watches.config reg'.etcd name)
        = byId (listInstances reg.watches.config reg.etcd name)
      ∧ reg.backlog r = event.write :: reg'.backlog r := by
  obtain ⟨watches, hwatches, hreg⟩ := Option.bind_eq_some_iff.mp hnext
  obtain rfl := Option.some.inj hreg
  obtain ⟨fw, hfw, hreceive⟩ := Option.bind_eq_some_iff.mp hwatches
  obtain ⟨fw₀, hfw₀, hservice, hlive⟩ := h.forwarder
  obtain rfl := Option.some.inj (hfw₀.symm.trans hfw)
  split_ifs at hreceive with hhead
  obtain ⟨channel, hchannel, rfl⟩ := Option.map_eq_some_iff.mp hreceive
  obtain ⟨queue, hqueue⟩ := List.head?_eq_some_iff.mp hhead
  obtain rfl : ⟨queue, fw₀.channel.received ++ [event]⟩ = channel := by
    rw [Channel.receive, hqueue] at hchannel
    exact Option.some.inj hchannel
  have hself := List.getElem?_set_self (a := { fw₀ with
    channel := ⟨queue, fw₀.channel.received ++ [event]⟩ }) (List.getElem?_eq_some_iff.mp hfw).1
  refine ⟨⟨h.config_eq, h.active, ⟨_, hself, hservice, hlive⟩, h.plain⟩, rfl, ?_⟩
  rw [backlog_eq hfw, backlog_eq hself]
  simp [inTransit, hqueue]

theorem listed_spec {list : List ServiceInstance}
    (hlist : reg.answer (.list name (.ok list)) = some reg') :
    reg' = reg ∧ list = listInstances reg.watches.config reg.etcd name := by
  obtain ⟨watches, hwatches, hreg⟩ := Option.bind_eq_some_iff.mp hlist
  obtain rfl : reg.watches = watches := by
    cases list with
    | nil => exact Option.some.inj hwatches
    | cons inst list =>
      replace hwatches : (if reg.watches.config.active then some reg.watches else none)
        = some watches := hwatches
      split_ifs at hwatches
      exact Option.some.inj hwatches
  replace hreg : (if list = listInstances reg.watches.config reg.etcd name then some reg else none)
    = some reg' := hreg
  split_ifs at hreg with hsame
  exact ⟨(Option.some.inj hreg).symm, hsame⟩

/-- **A stream of the etcd registry is a source** of what etcd holds, where the keys of the service
are plain and the etcd stream does not end. -/
def source (config : RegistryConfig) (name : String) (r : ℕ) :
    Source provider.unfailing name r where
  Open := Open config name r
  origin reg := byId (listInstances reg.watches.config reg.etcd name)
  backlog := backlog r
  writes := writes config name
  Fair op _ := Fair config name r op
  act := act_spec
  deliver hopen hnext := deliver_spec hopen hnext
  listed hlist := by
    obtain ⟨hreg, rfl⟩ := listed_spec hlist
    exact ⟨hreg, rfl⟩
  unlisted _ _ := rfl

/-- A failed listing leaves the registry as it is. -/
theorem failsSilently : provider.FailsSilently := by
  intro reg reg' q hfails h
  match q with
  | .list name (.error err) =>
    obtain ⟨watches, hwatches, hreg⟩ := Option.bind_eq_some_iff.mp h
    replace hwatches : (if reg.watches.config.active then some reg.watches else none)
      = some watches := hwatches
    split_ifs at hwatches
    obtain rfl := Option.some.inj hwatches
    exact (Option.some.inj hreg).symm

end Stream

/-! ## From etcd to the snapshot -/

section Healing

variable {config : RegistryConfig} {name : String} {r k : ℕ} {sys sys' : Deployment EtcdHub}
  {w : List (DirectoryLabel ⊕ EtcdHubOp)}

/-- The steps of the watch task, of the forwarding tasks and of etcd, where nobody puts a key under
the prefix of the service that is not plain, and the etcd stream does not end. -/
def Streaming (config : RegistryConfig) (name : String) (r k : ℕ) :
    DirectoryLabel ⊕ EtcdHubOp → Prop
  | .inl l => Following (ω := EtcdHubOp) k (.inl l)
  | .inr (.store op) => ∀ key value id, op = .put key value id → Plain config name key value
  | .inr (.forwarder f _ l) => f = r → l ≠ .closed ∧ l ≠ .failed

theorem Streaming.following {l : DirectoryLabel ⊕ EtcdHubOp} (h : Streaming config name r k l) :
    Following k l := by
  cases l with
  | inl l => exact h
  | inr op => trivial

/-- Task `k` still has the stream. -/
def Attached (r k : ℕ) (sys : Deployment EtcdHub) : Prop :=
  ∃ t, sys.directory.tasks k = some t ∧ t.stream = some r

theorem Attached.owns (h : Attached r k sys) (hguarded : sys.directory.Guarded) :
    sys.directory.Owns r := by
  obtain ⟨t, ht, hstream⟩ := h
  exact ⟨k, (hguarded.held k t ht).2, t, ht, hstream⟩

/-- While task `k` has the stream every step is fair. -/
theorem fairly_of_attached {l : DirectoryLabel ⊕ EtcdHubOp} (hl : Streaming config name r k l)
    (htruthful : Truthful sys l) (h : Attached r k sys) (hguarded : sys.directory.Guarded) :
    (source config name r).Fairly sys l := by
  rintro op rfl sys' -
  cases op with
  | store op => exact hl
  | forwarder f owned l =>
    rintro rfl
    obtain rfl : owned = decide (sys.directory.Owns f) := htruthful
    exact ⟨decide_eq_true (h.owns hguarded), hl rfl⟩

/-- Task `k` has stopped. -/
def Stopped (k : ℕ) (sys : Deployment EtcdHub) : Prop :=
  sys.directory.Guarded ∧ ∃ t, sys.directory.tasks k = some t ∧ t.state = .stopped

theorem guarded_of_step (h : sys.directory.Guarded) {l : DirectoryLabel ⊕ EtcdHubOp}
    (hstep : provider.step sys l = some sys') : sys'.directory.Guarded := by
  cases l with
  | inl l => exact h.step (Provider.step_inl_eq_some.mp hstep).2
  | inr op => exact (Provider.step_inr_eq_some.mp hstep).2 ▸ h

theorem Stopped.step (h : Stopped k sys) {l : DirectoryLabel ⊕ EtcdHubOp}
    (hstep : provider.step sys l = some sys') : Stopped k sys' := by
  obtain ⟨hguarded, t, ht, hstopped⟩ := h
  refine ⟨guarded_of_step hguarded hstep, t, ?_, hstopped⟩
  cases l with
  | inl l => exact hguarded.stays_stopped ht hstopped (Provider.step_inl_eq_some.mp hstep).2
  | inr op => exact (Provider.step_inr_eq_some.mp hstep).2 ▸ ht

theorem attached_of_subscribed (h : (source config name r).Subscribed k sys)
    (hguarded : sys.directory.Guarded) (hlive : ¬ Stopped k sys) : Attached r k sys := by
  obtain ⟨t, ht, -, hstream⟩ := h.task
  exact ⟨t, ht, hstream.resolve_right fun hstop => hlive ⟨hguarded, t, ht, hstop⟩⟩

theorem Attached.not_stopped (h : Attached r k sys) : ¬ Stopped k sys := by
  rintro ⟨-, t, ht, hstopped⟩
  obtain ⟨t', ht', hstream⟩ := h
  obtain rfl := Option.some.inj (ht.symm.trans ht')
  simp [WatchTask.stream, hstopped] at hstream

/-- A run at whose end task `k` still has the stream is fair. -/
theorem fairly_run (h : (source config name r).Subscribed k sys) (hguarded : sys.directory.Guarded)
    (hw : ∀ l ∈ w, Streaming config name r k l) (hrun : run step sys w = some sys')
    (hattached : Attached r k sys') :
    run provider.step sys w = some sys'
      ∧ EachStep provider.step (source config name r).Fairly sys w := by
  obtain ⟨hprovider, htruthful⟩ := run_restrict.mp hrun
  have hlive : EachState provider.step (fun s => ¬ Stopped k s) sys w :=
    eachState_of_last (fun _ _ _ hstop hstep => hstop.step hstep) hprovider hattached.not_stopped
  have hfair : ∀ s l, ((source config name r).Subscribed k s ∧ s.directory.Guarded) →
      ((Streaming config name r k l ∧ Truthful s l) ∧ ¬ Stopped k s) →
      (source config name r).Fairly s l := fun s l hs hl =>
    fairly_of_attached hl.1.1 hl.1.2 (attached_of_subscribed hs.1 hs.2 hl.2) hs.2
  refine ⟨hprovider, EachStep.imp_of_invariant (fun s l s' hs hl hstep => ?_) hfair ⟨h, hguarded⟩
    (((eachStep_of_forall_mem hw).and htruthful).and hlive.eachStep)⟩
  exact ⟨(hs.1.step_fallible failsSilently hl.1.1.following (hfair s l hs hl) hstep).1,
    guarded_of_step hs.2 hstep⟩

/-- Nothing is on its way to the snapshot: etcd's events are read, forwarded, received and
applied. -/
def Drained (r k : ℕ) (sys : Deployment EtcdHub) : Prop :=
  (sys.directory.tasks k).bind WatchTask.taken = none
    ∧ ∃ fw, sys.registry.watches.forwarders[r]? = some fw ∧ fw.channel.queue = []
      ∧ fw.state.events = [] ∧ sys.registry.unread r = []

theorem Drained.undelivered (h : Drained r k sys) :
    (source config name r).undelivered k sys = [] := by
  obtain ⟨htaken, fw, hfw, hqueue, hevents, hunread⟩ := h
  refine Source.undelivered_eq_nil.mpr ⟨htaken, (backlog_eq hfw).trans ?_⟩
  rw [inTransit, hqueue, hevents, hunread]
  rfl

/-- Task `k` has the stream and nothing is on its way to it, in a form that can be evaluated. -/
def AtRest (r k : ℕ) (sys : Deployment EtcdHub) : Prop :=
  (sys.directory.tasks k).bind WatchTask.stream = some r
    ∧ (sys.directory.tasks k).bind WatchTask.taken = none ∧ sys.registry.unread r = []
    ∧ (sys.registry.watches.forwarders[r]?).map (fun fw => (fw.channel.queue, fw.state.events))
      = some ([], [])

instance (r k : ℕ) (sys : Deployment EtcdHub) : Decidable (AtRest r k sys) :=
  inferInstanceAs (Decidable (_ ∧ _))

theorem settled_iff : Attached r k sys ∧ Drained r k sys ↔ AtRest r k sys := by
  simp only [Attached, Drained, AtRest, Option.bind_eq_some_iff, Option.map_eq_some_iff,
    Prod.mk.injEq]
  exact and_congr_right fun _ => and_congr_right fun _ =>
    ⟨fun ⟨fw, hfw, hqueue, hevents, hunread⟩ => ⟨hunread, fw, hfw, hqueue, hevents⟩,
      fun ⟨hunread, fw, hfw, hqueue, hevents⟩ => ⟨fw, hfw, hqueue, hevents, hunread⟩⟩

/-- After a run at whose end task `k` still has the stream, a reconcile completed and nothing is on
its way, the snapshot has under each id what etcd holds under the key of the id. -/
theorem agree_of_run (h : (source config name r).Established k sys)
    (hguarded : sys.directory.Guarded) (hw : ∀ l ∈ w, Streaming config name r k l)
    (hrun : run step sys w = some sys') (hreset : .inl (.task k .reset) ∈ w)
    (hattached : Attached r k sys') (hdrained : Drained r k sys') :
    Open config name r sys'.registry ∧ byId (sys'.directory.getInstances name)
      = reading (keyOfId config name) sys'.registry.etcd.values := by
  obtain ⟨hprovider, hfair⟩ := fairly_run h.subscribed hguarded hw hrun hattached
  have hfollowing : ∀ l ∈ w, Following k l := fun l hl => (hw l hl).following
  have hsub : (source config name r).Subscribed k sys' :=
    invariant_run (fun _ _ _ hsub hl hstep =>
      (hsub.step_fallible failsSilently hl.1 hl.2 hstep).1) h.subscribed
      ((eachStep_of_forall_mem hfollowing).and hfair) hprovider
  have hopen : Open config name r sys'.registry := hsub.isOpen
  refine ⟨hopen, funext fun id => ?_⟩
  rw [← byId_listInstances hopen.active hopen.plain, ← hopen.config_eq]
  refine (h.agree_iff_fallible failsSilently hfollowing hfair hprovider
    hdrained.undelivered id).mpr (.inr ⟨.reset, ?_, trivial⟩)
  exact List.mem_flatMap.mpr ⟨_, hreset, List.mem_singleton.mpr rfl⟩

/-- **The snapshot heals.**  However writes to etcd, their way through the watch and the reconciles
of the watch task interleave, and whatever the snapshot held when the stream was established: once
one reconcile has completed and nothing is on its way, the snapshot of the service is what etcd
holds for it. -/
theorem healed_from_etcd (h : (source config name r).Established k sys)
    (hguarded : sys.directory.Guarded) (hw : ∀ l ∈ w, Streaming config name r k l)
    (hrun : run step sys w = some sys') (hreset : .inl (.task k .reset) ∈ w)
    (hattached : Attached r k sys') (hdrained : Drained r k sys') :
    byId (sys'.directory.getInstances name)
      = byId (listInstances sys'.registry.watches.config sys'.registry.etcd name) := by
  obtain ⟨hopen, hagree⟩ := agree_of_run h hguarded hw hrun hreset hattached hdrained
  rw [hagree, hopen.config_eq, byId_listInstances hopen.active hopen.plain]

/-- A task that has just subscribed to a service, and an etcd that holds nothing. -/
def subscribedHub : Deployment EtcdHub where
  directory := { (ServiceDirectory.withOptions false ∅).spawnWatch "order-svc" 0 (some 0) with
    nextToken := 1 }
  registry := ⟨⟨.default, [⟨"order-svc", .reading, .empty⟩]⟩, .empty, fun _ => []⟩

def orderInstance : ServiceInstance := .simple "order-svc" "10.0.0.1" 8080

def orderKey : String := RegistryConfig.default.keyOf orderInstance

/-- A first reconcile fails; a second one lists before the instance is put, and is applied after;
then the put makes its way to the snapshot. -/
def registeredMeanwhile : List (DirectoryLabel ⊕ EtcdHubOp) :=
  [.inl (.task 0 .enter), .inl (.task 0 .primed), .inl (.task 0 .tick),
    .inl (.task 0 (.listed (.error (.connection "refused")))), .inl (.task 0 .tick),
    .inr (.store (.grant 7 30)), .inl (.task 0 (.listed (.ok []))),
    .inr (.store (.put orderKey orderInstance 7)), .inl (.task 0 .reset),
    .inr (.forwarder 0 true (.message [.put orderKey (some orderInstance)])),
    .inr (.forwarder 0 true .forward), .inl (.task 0 (.next (some (.upsert orderInstance)))),
    .inl (.task 0 .apply)]

theorem established_subscribedHub :
    (source .default "order-svc" 0).Established 0 subscribedHub where
  task := ⟨_, rfl, rfl, rfl, rfl⟩
  isOpen := ⟨rfl, by decide +kernel, ⟨_, rfl, rfl, ForwarderState.noConfusion⟩,
    fun key value hvalue => by cases hvalue⟩
  backlog := rfl

theorem tasks_subscribedHub {t : WatchTask} (h : subscribedHub.directory.tasks k = some t) :
    k = 0 ∧ t.token = 0 ∧ t.state = .entering := by
  rcases update_eq_some.mp h with ⟨rfl, rfl⟩ | ⟨-, h⟩
  · exact ⟨rfl, rfl, rfl⟩
  · cases h

theorem guarded_subscribedHub : subscribedHub.directory.Guarded where
  holder _ hi := hi.elim
  critical _ := trivial
  filed _ _ h := by cases h
  injective _ _ _ h := by cases h
  issued token h := absurd h (Finset.notMem_empty token)
  held k t ht := by
    obtain ⟨rfl, htoken, -⟩ := tasks_subscribedHub ht
    exact ⟨htoken ▸ Nat.zero_lt_one, Nat.zero_lt_one⟩
  stopped k t ht hstop := by
    rw [(tasks_subscribedHub ht).2.2] at hstop
    cases hstop

theorem streaming_registeredMeanwhile :
    ∀ l ∈ registeredMeanwhile, Streaming .default "order-svc" 0 0 l := by
  have hplain : Plain .default "order-svc" orderKey orderInstance := by
    have hfree : '/' ∉ orderInstance.serviceId.toList := by decide +kernel
    exact fun _ => ⟨hfree, rfl⟩
  simp [registeredMeanwhile, Streaming, Following, hplain]

/-- Where that run ends. -/
def healedHub : Deployment EtcdHub :=
  (run step subscribedHub registeredMeanwhile).get (by decide +kernel)

/-- `healed_from_etcd` for an instance that is put while the directory reconciles. -/
theorem healed_from_etcd_meanwhile :
    run step subscribedHub registeredMeanwhile = some healedHub
      ∧ byId (healedHub.directory.getInstances "order-svc") = byId (listInstances
        healedHub.registry.watches.config healedHub.registry.etcd "order-svc") := by
  have hrun : run step subscribedHub registeredMeanwhile = some healedHub :=
    (Option.some_get _).symm
  have hrest : AtRest 0 0 healedHub := by decide +kernel
  obtain ⟨hattached, hdrained⟩ := settled_iff.mpr hrest
  exact ⟨hrun, healed_from_etcd established_subscribedHub guarded_subscribedHub
    streaming_registeredMeanwhile hrun (by simp [registeredMeanwhile]) hattached hdrained⟩

end Healing

end EtcdHub

end PecsRegistry
